import Gristle.Run

/-! What the functions leave alone: a function on one descriptor changes no other slot of the
table and never the geometry of the volume. -/
namespace Gristle
open Prog

/-! ### Reading back a run of the basic programs -/

theorem file_ok {fd : Fd} {s t : FatState} {f : FileS} (h : file fd s = .ok (f,t)) :
    f = s.fileNum fd ∧ t = s := by
  simp only [file,Except.ok.injEq,Prod.mk.injEq] at h
  exact ⟨h.1.symm,h.2.symm⟩

theorem fatfs_ok {s t : FatState} {g : FatInfo} (h : fatfs s = .ok (g,t)) :
    g = s.fatfs ∧ t = s := by
  simp only [fatfs,Except.ok.injEq,Prod.mk.injEq] at h
  exact ⟨h.1.symm,h.2.symm⟩

theorem updateFile_ok {fd : Fd} {u : FileS → FileS} {s t : FatState} {a : Unit}
    (h : updateFile fd u s = .ok (a,t)) : t = s.setFile fd (u (s.fileNum fd)) := by
  simp only [updateFile,modify_apply,Except.ok.injEq,Prod.mk.injEq] at h
  exact h.2.symm

theorem onDevice_ok {α : Type} {x : Prog Device α} {s t : FatState} {a : α}
    (h : onDevice x s = .ok (a,t)) : ∃ d, x s.dev = .ok (a,d) ∧ t = { s with dev := d } := zoom_ok h

theorem pure_ok {α : Type} {a b : α} {s t : FatState}
    (h : (pure a : FatM α) s = .ok (b,t)) : b = a ∧ t = s := by
  simp only [pure_apply,Except.ok.injEq,Prod.mk.injEq] at h
  exact ⟨h.1.symm,h.2.symm⟩

/-! ### One slot of the table -/

/-- A later state of the same device: the history only grows. -/
structure Device.Later (d e : Device) : Prop where
  size : e.size = d.size
  trace : d.trace <:+ e.trace

instance : Std.Refl Device.Later := ⟨fun d => ⟨rfl,List.suffix_rfl⟩⟩

instance : IsTrans Device Device.Later where
  trans _ _ _ h h' := ⟨h'.size.trans h.size,h.trace.trans h'.trace⟩

/-- Apart from the buffers of the device and of the volume, only slot `fd` may differ. -/
structure SameBut (fd : Fd) (s t : FatState) : Prop where
  fatfs : t.fatfs = s.fatfs
  device : s.dev.Later t.dev
  others : ∀ j, j ≠ fd → t.fileNum j = s.fileNum j

instance (fd : Fd) : Std.Refl (SameBut fd) := ⟨fun _ => ⟨rfl,Std.Refl.refl _,fun _ _ => rfl⟩⟩

instance (fd : Fd) : IsTrans FatState (SameBut fd) where
  trans _ _ _ h h' := ⟨h'.fatfs.trans h.fatfs,IsTrans.trans _ _ _ h.device h'.device,
    fun j hj => (h'.others j hj).trans (h.others j hj)⟩

theorem SameBut.size {fd : Fd} {s t : FatState} (h : SameBut fd s t) : t.dev.size = s.dev.size :=
  h.device.size

/-- A function that only works on the medium and the system buffer. -/
structure SameTable (s t : FatState) : Prop where
  fatfs : t.fatfs = s.fatfs
  device : s.dev.Later t.dev
  fileNum : t.fileNum = s.fileNum

instance : Std.Refl SameTable := ⟨fun _ => ⟨rfl,Std.Refl.refl _,rfl⟩⟩

instance : IsTrans FatState SameTable where
  trans _ _ _ h h' :=
    ⟨h'.fatfs.trans h.fatfs,IsTrans.trans _ _ _ h.device h'.device,h'.fileNum.trans h.fileNum⟩

theorem SameTable.sameBut {s t : FatState} (h : SameTable s t) (fd : Fd) : SameBut fd s t :=
  ⟨h.fatfs,h.device,fun j _ => congrFun h.fileNum j⟩

theorem blockRead_later (E : Env) (b : ℕ) : Keeps Device.Later (Device.blockRead E b) := by
  intro d a e h
  simp only [Device.blockRead,Except.ok.injEq,Prod.mk.injEq] at h
  rw [← h.2]
  exact ⟨rfl,List.suffix_rfl⟩

theorem blockWrite_later (E : Env) (o : Origin) (b : ℕ) (data : Sector) :
    Keeps Device.Later (Device.blockWrite E o b data) := by
  intro d a e h
  simp only [Device.blockWrite] at h
  split at h <;> simp only [Except.ok.injEq,Prod.mk.injEq] at h <;> rw [← h.2]
  · exact ⟨rfl,List.suffix_cons _ _⟩
  · exact ⟨rfl,List.suffix_cons _ _⟩

theorem onDevice_sameTable {α : Type} {x : Prog Device α} (hx : Keeps Device.Later x) :
    Keeps SameTable (onDevice x) := by
  intro s a t h
  obtain ⟨d,hd,rfl⟩ := onDevice_ok h
  exact ⟨rfl,hx _ _ _ hd,rfl⟩

theorem time_sameTable (E : Env) : Keeps SameTable (time E) :=
  onDevice_sameTable fun d a e h => by
    simp only [Device.time,Except.ok.injEq,Prod.mk.injEq] at h
    rw [← h.2]
    exact ⟨rfl,List.suffix_rfl⟩

theorem junk_sameTable (E : Env) : Keeps SameTable (junk E) :=
  onDevice_sameTable fun d a e h => by
    simp only [Device.junk,Except.ok.injEq,Prod.mk.injEq] at h
    rw [← h.2]
    exact ⟨rfl,List.suffix_rfl⟩

theorem sysLock_sameTable (E : Env) : Keeps SameTable (sysLock E) :=
  onDevice_sameTable fun d a e h => by
    simp only [Device.sysLock] at h
    split at h <;> simp only [Except.ok.injEq,Prod.mk.injEq] at h <;> rw [← h.2]
    · exact ⟨rfl,List.suffix_rfl⟩
    · exact ⟨rfl,List.suffix_cons _ _⟩

theorem log_sameTable (e : Event) : Keeps SameTable (onDevice (Device.log e)) :=
  onDevice_sameTable (keeps_modify fun _ => ⟨rfl,List.suffix_cons _ _⟩)

theorem sysUnlock_sameTable : Keeps SameTable sysUnlock := log_sameTable .unlock

theorem writeBlock_sameTable (E : Env) (o : Origin) (b : ℕ) (data : Sector) :
    Keeps SameTable (writeBlock E o b data) := onDevice_sameTable (blockWrite_later E o b data)

theorem setSysbuf_sameTable (b : Sector) : Keeps SameTable (setSysbuf b) :=
  keeps_modify fun _ => ⟨rfl,Std.Refl.refl _,rfl⟩

theorem keeps_fatfs {R : FatState → FatState → Prop} [Std.Refl R] : Keeps R fatfs := by
  intro s g t h
  obtain ⟨-,rfl⟩ := fatfs_ok h
  exact Std.Refl.refl t

theorem keeps_file {R : FatState → FatState → Prop} [Std.Refl R] (fd : Fd) : Keeps R (file fd) := by
  intro s f t h
  obtain ⟨-,rfl⟩ := file_ok h
  exact Std.Refl.refl t

theorem keeps_sysbuf {R : FatState → FatState → Prop} [Std.Refl R] : Keeps R sysbuf := by
  intro s b t h
  simp only [sysbuf,Except.ok.injEq,Prod.mk.injEq] at h
  rw [← h.2]
  exact Std.Refl.refl s

theorem liftStop_keeps {α : Type} {R : FatState → FatState → Prop} [Std.Refl R]
    (x : Except Stop α) : Keeps R (liftStop x) := by
  cases x with
  | ok a => exact keeps_pure a
  | error e => exact keeps_stop e

theorem readSysbuf_sameTable (E : Env) (b : ℕ) : Keeps SameTable (readSysbuf E b) := by
  refine keeps_bind (onDevice_sameTable (blockRead_later E b)) fun o => ?_
  cases o with
  | none => exact keeps_pure true
  | some d => exact keeps_bind (setSysbuf_sameTable d) fun _ => keeps_pure false

theorem freeClusterLoop_sameTable (E : Env) (n i : ℕ) : Keeps SameTable (freeClusterLoop E n i) := by
  induction n generalizing i with
  | zero => exact keeps_bind sysUnlock_sameTable fun _ => keeps_pure 0
  | succ n ih =>
    refine keeps_bind (readSysbuf_sameTable E i) fun r => keeps_ite (keeps_pure _) ?_
    refine keeps_bind keeps_fatfs fun g => keeps_bind keeps_sysbuf fun b => ?_
    cases g.freeIndex b g.perBlock 0 with
    | none => exact ih (i+1)
    | some j =>
      refine keeps_bind keeps_sysbuf fun _ => keeps_bind (setSysbuf_sameTable _) fun _ => ?_
      refine keeps_bind keeps_sysbuf fun _ => keeps_bind (writeBlock_sameTable _ _ _ _) fun _ => ?_
      exact keeps_ite (keeps_bind sysUnlock_sameTable fun _ => keeps_pure _)
        (keeps_bind sysUnlock_sameTable fun _ => keeps_pure _)

theorem fatGetFreeCluster_sameTable (E : Env) : Keeps SameTable (fatGetFreeCluster E) := by
  refine keeps_bind keeps_fatfs fun g => keeps_bind (sysLock_sameTable E) fun granted => ?_
  refine keeps_bind ?_ fun r => keeps_bind (log_sameTable _) fun _ => keeps_pure r
  exact keeps_ite (freeClusterLoop_sameTable E _ _) (keeps_pure 0)

theorem freeClustersLoad_sameTable (E : Env) (blk current : ℕ) :
    Keeps SameTable (freeClustersLoad E blk current) := by
  refine keeps_ite (keeps_pure false) (keeps_ite (readSysbuf_sameTable E blk) ?_)
  refine keeps_bind keeps_sysbuf fun _ => keeps_bind (writeBlock_sameTable _ _ _ _) fun _ => ?_
  exact readSysbuf_sameTable E blk

theorem freeClustersLoop_sameTable (E : Env) (n c current : ℕ) :
    Keeps SameTable (freeClustersLoop E n c current) := by
  induction n generalizing c current with
  | zero => exact keeps_stop .fuel
  | succ n ih =>
    refine keeps_bind keeps_fatfs fun g => ?_
    refine keeps_bind (freeClustersLoad_sameTable E _ _) fun r => keeps_ite ?_ ?_
    · exact keeps_bind sysUnlock_sameTable fun _ => keeps_pure _
    · refine keeps_bind keeps_sysbuf fun b => keeps_bind (setSysbuf_sameTable _) fun _ => ?_
      refine keeps_ite ?_ (ih _ _)
      refine keeps_bind keeps_sysbuf fun _ => keeps_bind (writeBlock_sameTable _ _ _ _) fun _ => ?_
      exact keeps_bind sysUnlock_sameTable fun _ => keeps_pure 0

theorem fatFreeClusters_sameTable (E : Env) (c : ℕ) : Keeps SameTable (fatFreeClusters E c) :=
  keeps_bind (sysLock_sameTable E) fun _ =>
    keeps_ite (freeClustersLoop_sameTable E _ _ _) (keeps_pure _)

/-! ### Functions on one descriptor -/

/-- A relation kept by every program on the medium alone and by every update of slot `fd` that does
not close it. -/
structure Local (fd : Fd) (R : FatState → FatState → Prop) : Prop where
  table : ∀ s t, SameTable s t → R s t
  update : ∀ s f, ((s.fileNum fd).flags.open_ = true → f.flags.open_ = true) → R s (s.setFile fd f)

/-- A relation kept by each operation that the functions on slot `fd` are made of. -/
structure Admits (E : Env) (fd : Fd) (R : FatState → FatState → Prop) : Prop where
  read : ∀ b, Keeps R (onDevice (Device.blockRead E b))
  write : ∀ o b data, Keeps R (writeBlock E o b data)
  time : Keeps R (time E)
  junk : Keeps R (junk E)
  allocate : Keeps R (fatGetFreeCluster E)
  release : ∀ c, Keeps R (fatFreeClusters E c)
  update : ∀ s f, ((s.fileNum fd).flags.open_ = true → f.flags.open_ = true) → R s (s.setFile fd f)

section Local
variable {E : Env} {fd : Fd} {R : FatState → FatState → Prop}

theorem Local.keeps {α : Type} {x : FatM α} (hR : Local fd R) (h : Keeps SameTable x) : Keeps R x :=
  h.mono hR.table

theorem Local.updates {u : FileS → FileS} (hR : Local fd R)
    (hu : ∀ f, f.flags.open_ = true → (u f).flags.open_ = true) : Keeps R (updateFile fd u) :=
  keeps_modify fun s => hR.update s _ (hu _)

theorem Local.admits (hR : Local fd R) (E : Env) : Admits E fd R where
  read b := hR.keeps (onDevice_sameTable (blockRead_later E b))
  write o b data := hR.keeps (writeBlock_sameTable E o b data)
  time := hR.keeps (time_sameTable E)
  junk := hR.keeps (junk_sameTable E)
  allocate := hR.keeps (fatGetFreeCluster_sameTable E)
  release c := hR.keeps (fatFreeClusters_sameTable E c)
  update := hR.update

theorem Admits.updates {u : FileS → FileS} (hR : Admits E fd R)
    (hu : ∀ f, f.flags.open_ = true → (u f).flags.open_ = true) : Keeps R (updateFile fd u) :=
  keeps_modify fun s => hR.update s _ (hu _)

variable [Std.Refl R] [IsTrans FatState R] (hR : Admits E fd R)
include hR

theorem readBuffer_local (b : ℕ) : Keeps R (readBuffer E fd b) := by
  refine keeps_bind (hR.read b) fun o => ?_
  cases o with
  | none => exact keeps_pure true
  | some d => exact keeps_bind (hR.updates fun _ h => h) fun _ => keeps_pure false

theorem fatSelectCluster_local (c : ℕ) : Keeps R (fatSelectCluster E fd c) := by
  refine keeps_bind keeps_fatfs fun _ => keeps_bind (hR.updates fun f h => ?_) fun _ =>
    keeps_bind (keeps_file fd) fun _ => readBuffer_local hR _
  unfold FileS.select
  split <;> exact h

section Flush
variable {flushFileinfo : Fd → FatM ℤ} (hf : Keeps R (flushFileinfo fd))
include hf

theorem fatFlushWith_local : Keeps R (fatFlushWith flushFileinfo E fd) := by
  refine keeps_bind (keeps_file fd) fun f => keeps_ite (keeps_ite ?_ ?_) (keeps_pure 0)
  · refine keeps_bind hR.allocate fun c => ?_
    refine keeps_ite (keeps_pure _) (keeps_ite (keeps_pure _) ?_)
    refine keeps_bind keeps_fatfs fun g => keeps_bind (hR.updates fun _ h => h) fun _ => ?_
    refine keeps_bind (keeps_file fd) fun _ => keeps_bind (hR.write _ _ _) fun _ => ?_
    refine keeps_ite (keeps_pure _) (keeps_bind (hR.updates fun _ h => h) fun _ => ?_)
    exact keeps_bind hf fun _ => keeps_pure 0
  · refine keeps_bind (hR.write _ _ _) fun _ => keeps_ite (keeps_pure _) ?_
    exact keeps_bind (hR.updates fun _ h => h) fun _ => keeps_pure 0

theorem extendChain_local : Keeps R (extendChain flushFileinfo E fd) := by
  refine keeps_bind hR.allocate fun k => ?_
  refine keeps_ite (keeps_pure _) (keeps_ite (keeps_pure _) ?_)
  refine keeps_bind keeps_fatfs fun g => keeps_bind (keeps_file fd) fun f => ?_
  refine keeps_bind (readBuffer_local hR _) fun _ => keeps_ite (keeps_pure _) ?_
  refine keeps_bind (hR.updates fun _ h => h) fun _ => keeps_bind (keeps_file fd) fun _ => ?_
  refine keeps_bind (hR.write _ _ _) fun _ => keeps_ite (keeps_pure _) ?_
  exact keeps_bind hf fun _ => keeps_pure _

theorem fatNextClusterWith_local : Keeps R (fatNextClusterWith flushFileinfo E fd) := by
  refine keeps_bind (fatFlushWith_local hR hf) fun _ => keeps_ite (keeps_pure _) ?_
  refine keeps_bind keeps_fatfs fun g => keeps_bind (keeps_file fd) fun f => keeps_ite ?_ ?_
  · exact keeps_bind (hR.updates fun _ h => h) fun _ => keeps_pure _
  · refine keeps_bind (readBuffer_local hR _) fun _ => keeps_ite (keeps_pure _) ?_
    refine keeps_bind (keeps_file fd) fun f => keeps_ite ?_ (keeps_ite (keeps_ite ?_ ?_) (keeps_pure _))
    · exact keeps_bind (hR.updates fun _ h => h) fun _ => keeps_pure _
    · exact extendChain_local hR hf
    · exact keeps_bind (hR.updates fun _ h => h) fun _ => keeps_pure _

theorem fatNextSectorWith_local : Keeps R (fatNextSectorWith flushFileinfo E fd) := by
  refine keeps_bind (fatFlushWith_local hR hf) fun _ => keeps_ite (keeps_pure _) ?_
  refine keeps_bind (keeps_file fd) fun f => keeps_ite ?_ ?_
  · exact keeps_bind (hR.updates fun _ h => h) fun _ => keeps_bind (keeps_file fd) fun _ =>
      readBuffer_local hR _
  · refine keeps_bind (fatNextClusterWith_local hR hf) fun p => keeps_ite ?_ (keeps_pure _)
    exact keeps_bind (hR.updates fun _ h => h) fun _ => fatSelectCluster_local hR _

theorem emptySlotLoop_local (n : ℕ) : Keeps R (emptySlotLoop flushFileinfo E fd n) := by
  induction n with
  | zero => exact keeps_stop .fuel
  | succ n ih =>
    refine keeps_bind (keeps_file fd) fun f => ?_
    cases emptySlot f.buffer 16 0 with
    | some i => exact keeps_pure i
    | none => exact keeps_bind (fatNextSectorWith_local hR hf) fun _ => ih

theorem locateEntry_local : Keeps R (locateEntry flushFileinfo E fd) := by
  refine keeps_bind (keeps_file fd) fun f => keeps_ite ?_ (readBuffer_local hR _)
  refine keeps_bind (fatSelectCluster_local hR _) fun _ => ?_
  exact keeps_bind (emptySlotLoop_local hR hf _) fun _ =>
    keeps_bind (hR.updates fun _ h => h) fun _ => keeps_pure _

theorem flushFileinfoBody_local : Keeps R (flushFileinfoBody flushFileinfo E fd) := by
  refine keeps_bind (keeps_file fd) fun f => keeps_bind keeps_fatfs fun g => ?_
  refine keeps_ite (keeps_pure 0) (keeps_ite (keeps_pure 0) (keeps_ite (keeps_pure 0) ?_))
  refine keeps_bind hR.junk fun _ => ?_
  refine keeps_bind (fatFlushWith_local hR hf) fun _ => keeps_ite (keeps_pure _) ?_
  refine keeps_bind (locateEntry_local hR hf) fun _ => keeps_ite (keeps_pure _) ?_
  refine keeps_bind (hR.updates fun _ h => h) fun _ => keeps_bind (keeps_file fd) fun _ => ?_
  refine keeps_bind (hR.write _ _ _) fun _ => keeps_ite (keeps_pure _) ?_
  refine keeps_bind (readBuffer_local hR _) fun _ => keeps_ite (keeps_pure _) ?_
  exact keeps_bind (hR.updates fun _ h => h) fun _ => keeps_pure 0

end Flush

theorem fatFlushFileinfoAux_local (n : ℕ) : Keeps R (fatFlushFileinfoAux E n fd) := by
  induction n with
  | zero => exact keeps_stop .fuel
  | succ n ih => exact flushFileinfoBody_local hR ih


theorem fatFlushFileinfo_local : Keeps R (fatFlushFileinfo E fd) :=
  fatFlushFileinfoAux_local hR _

theorem fatFlush_local : Keeps R (fatFlush E fd) :=
  fatFlushWith_local hR (fatFlushFileinfo_local hR)

theorem fatNextCluster_local : Keeps R (fatNextCluster E fd) :=
  fatNextClusterWith_local hR (fatFlushFileinfo_local hR)

theorem fatNextSector_local : Keeps R (fatNextSector E fd) :=
  fatNextSectorWith_local hR (fatFlushFileinfo_local hR)

theorem scanLoop_local (name : DosName) (n : ℕ) : Keeps R (scanLoop E fd name n) := by
  induction n with
  | zero => exact keeps_stop .fuel
  | succ n ih =>
    refine keeps_bind (keeps_file fd) fun f => ?_
    cases searchSlots name.byte f.buffer 16 0 with
    | last => exact keeps_pure none
    | found i => exact keeps_pure (some i)
    | absent =>
      exact keeps_bind (fatNextSector_local hR) fun _ => keeps_ite (keeps_pure none) ih

theorem lookupLoop_local (elements : List (List UInt8)) (name : DosName) (e : ℤ) :
    Keeps R (lookupLoop E fd elements name e) := by
  induction elements generalizing name e with
  | nil => exact keeps_pure _
  | cons element rest ih =>
    refine keeps_bind (liftStop_keeps _) fun o => ?_
    cases o with
    | none => exact keeps_pure _
    | some name =>
      refine keeps_bind (scanLoop_local hR name _) fun o => ?_
      cases o with
      | none => exact keeps_bind (hR.updates fun _ h => h) fun _ => keeps_pure _
      | some i =>
        refine keeps_bind (keeps_file fd) fun f => keeps_bind keeps_fatfs fun g => ?_
        refine keeps_ite ?_ (keeps_ite ?_ (keeps_pure _))
        · exact keeps_bind (hR.updates fun _ _ => rfl) fun _ => keeps_bind (keeps_file fd) fun _ =>
            keeps_bind (fatSelectCluster_local hR _) fun _ => keeps_pure _
        · exact keeps_bind (hR.updates fun _ h => h) fun _ =>
            keeps_bind (fatSelectCluster_local hR _) fun _ => ih name e

theorem fatLookupPath_local (path : List UInt8) (e : ℤ) :
    Keeps R (fatLookupPath E fd path e) := by
  refine keeps_ite (keeps_pure _) (keeps_bind keeps_fatfs fun g => ?_)
  refine keeps_bind hR.junk fun _ => ?_
  refine keeps_bind (fatSelectCluster_local hR _) fun _ => ?_
  cases (pathElements path).take 20 with
  | nil => exact keeps_bind (hR.updates fun _ h => h) fun _ =>
      keeps_bind (fatSelectCluster_local hR _) fun _ => keeps_pure _
  | cons element rest =>
    exact keeps_bind (hR.updates fun _ h => h) fun _ => lookupLoop_local hR _ _ e

theorem truncateFile_local : Keeps R (truncateFile E fd) :=
  keeps_bind (keeps_file fd) fun _ =>
    keeps_bind (hR.release _) fun _ =>
    keeps_bind (hR.updates fun _ h => h) fun _ => keeps_bind hR.time fun _ =>
    keeps_bind (hR.updates fun _ h => h) fun _ => keeps_bind hR.time fun _ =>
    hR.updates fun _ h => h

theorem lazySector_local (c : Prop) [Decidable c] :
    Keeps R (if c then fatNextSector E fd else pure false) :=
  keeps_ite (fatNextSector_local hR) (keeps_pure false)

theorem readLoop_local (n : ℕ) : Keeps R (readLoop E fd n) := by
  induction n with
  | zero => exact keeps_pure _
  | succ n ih =>
    refine keeps_bind (keeps_file fd) fun f => keeps_ite (keeps_pure _) ?_
    refine keeps_bind (lazySector_local hR _) fun _ => keeps_ite (keeps_pure _) ?_
    exact keeps_bind (keeps_file fd) fun _ => keeps_bind (hR.updates fun _ h => h) fun _ =>
      keeps_bind ih fun _ => keeps_pure _

theorem fatUpdateAtime_local : Keeps R (fatUpdateAtime E fd) := by
  refine keeps_bind hR.time fun _ => keeps_bind (keeps_file fd) fun f => ?_
  refine keeps_ite ?_ (keeps_pure ())
  exact keeps_bind hR.time fun _ => hR.updates fun _ h => h

omit [Std.Refl R] in
theorem fatUpdateMtime_local : Keeps R (fatUpdateMtime E fd) :=
  keeps_bind hR.time fun _ => hR.updates fun _ h => h

theorem readSlot_local (count : ℕ) : Keeps R (readSlot E count fd) := by
  refine keeps_bind (keeps_file fd) fun f => keeps_ite (keeps_pure _) ?_
  refine keeps_bind (readLoop_local hR count) fun _ => ?_
  exact keeps_bind (keeps_ite (fatUpdateAtime_local hR) (keeps_pure ())) fun _ => keeps_pure _

theorem walkClusters_local (n : ℕ) (e : ℤ) : Keeps R (walkClusters E fd n e) := by
  induction n generalizing e with
  | zero => exact keeps_pure e
  | succ n ih =>
    exact keeps_bind (fatNextCluster_local hR) fun p =>
      keeps_bind (hR.updates fun _ h => h) fun _ => ih p.2

theorem seekChain_local (ptr : ℤ) (newPos : ℕ) : Keeps R (seekChain E fd ptr newPos) := by
  refine keeps_bind keeps_fatfs fun g => keeps_bind (hR.updates fun _ h => h) fun _ => ?_
  refine keeps_bind (walkClusters_local hR _ _) fun _ => ?_
  refine keeps_bind (hR.updates fun _ h => h) fun _ => keeps_bind (keeps_file fd) fun _ => ?_
  exact keeps_bind (readBuffer_local hR _) fun _ => keeps_ite (keeps_pure _) (keeps_pure _)

theorem seekSlot_local (ptr : ℤ) (dir : Whence) : Keeps R (seekSlot E ptr dir fd) := by
  refine keeps_bind (keeps_file fd) fun f => keeps_ite (keeps_pure _) ?_
  refine keeps_bind (fatFlush_local hR) fun _ => keeps_bind (keeps_file fd) fun f => ?_
  refine keeps_bind keeps_fatfs fun g => keeps_ite (keeps_pure _) ?_
  refine keeps_bind (lazySector_local hR _) fun _ => keeps_ite ?_ (keeps_ite ?_ ?_)
  · exact keeps_bind (hR.updates fun _ h => h) fun _ => keeps_pure _
  · exact keeps_bind (hR.updates fun _ h => h) fun _ => keeps_bind (keeps_file fd) fun _ =>
      keeps_bind (readBuffer_local hR _) fun _ => keeps_ite (keeps_pure _) (keeps_pure _)
  · exact seekChain_local hR ptr _

theorem writeLoop_local (bytes : List UInt8) : Keeps R (writeLoop E fd bytes) := by
  induction bytes with
  | nil => exact keeps_pure false
  | cons c cs ih =>
    refine keeps_bind (keeps_file fd) fun f => keeps_bind (lazySector_local hR _) fun _ => ?_
    refine keeps_ite (keeps_pure true) ?_
    refine keeps_bind (hR.updates fun f h => ?_) fun _ => keeps_bind (hR.updates fun _ h => h) fun _ => ih
    split <;> exact h

theorem writeSlot_local (bytes : List UInt8) : Keeps R (writeSlot E bytes fd) := by
  refine keeps_bind (keeps_file fd) fun f => keeps_ite (keeps_pure _) ?_
  refine keeps_bind (keeps_ite (seekSlot_local hR _ _) (keeps_pure _)) fun p => ?_
  refine keeps_bind (writeLoop_local hR bytes) fun _ => keeps_ite (keeps_pure _) ?_
  exact keeps_bind (keeps_ite (fatUpdateMtime_local hR) (keeps_pure ())) fun _ => keeps_pure _

theorem fatDelete_local : Keeps R (fatDelete E fd) := by
  refine keeps_bind (keeps_file fd) fun f => keeps_bind (readBuffer_local hR _) fun _ => ?_
  refine keeps_bind (hR.updates fun _ h => h) fun _ => keeps_bind (keeps_file fd) fun f => ?_
  refine keeps_bind (hR.write _ _ _) fun _ => ?_
  refine keeps_bind (hR.release _) fun _ => ?_
  exact hR.updates fun _ _ => rfl

end Local

/-! ### The other slots -/

theorem sameBut_local (fd : Fd) : Local fd (SameBut fd) where
  table _ _ h := h.sameBut fd
  update s f _ := ⟨rfl,Std.Refl.refl _,fun _ hj => s.setFile_of_ne f hj⟩

section SameBut
variable (E : Env) (fd : Fd)

theorem updateFile_sameBut (u : FileS → FileS) : Keeps (SameBut fd) (updateFile fd u) :=
  keeps_modify fun s => ⟨rfl,Std.Refl.refl _,fun _ hj => s.setFile_of_ne _ hj⟩

theorem readBuffer_sameBut (b : ℕ) : Keeps (SameBut fd) (readBuffer E fd b) :=
  readBuffer_local ((sameBut_local fd).admits E) b

theorem fatSelectCluster_sameBut (c : ℕ) : Keeps (SameBut fd) (fatSelectCluster E fd c) :=
  fatSelectCluster_local ((sameBut_local fd).admits E) c

theorem fatLookupPath_sameBut (path : List UInt8) (e : ℤ) :
    Keeps (SameBut fd) (fatLookupPath E fd path e) := fatLookupPath_local ((sameBut_local fd).admits E) path e

theorem readSlot_sameBut (count : ℕ) : Keeps (SameBut fd) (readSlot E count fd) :=
  readSlot_local ((sameBut_local fd).admits E) count

theorem seekSlot_sameBut (ptr : ℤ) (dir : Whence) : Keeps (SameBut fd) (seekSlot E ptr dir fd) :=
  seekSlot_local ((sameBut_local fd).admits E) ptr dir

theorem writeSlot_sameBut (bytes : List UInt8) : Keeps (SameBut fd) (writeSlot E bytes fd) :=
  writeSlot_local ((sameBut_local fd).admits E) bytes

theorem fatDelete_sameBut : Keeps (SameBut fd) (fatDelete E fd) := fatDelete_local ((sameBut_local fd).admits E)

theorem refuse_sameBut (e : ℤ) : Keeps (SameBut fd) (refuse fd e) :=
  keeps_bind (updateFile_sameBut fd _) fun _ => keeps_pure _

theorem openExisting_sameBut (flags : OpenFlags) (e : ℤ) :
    Keeps (SameBut fd) (openExisting E fd flags e) := by
  refine keeps_bind keeps_fatfs fun g => keeps_bind (keeps_file fd) fun f => ?_
  refine keeps_ite (refuse_sameBut fd _) (keeps_ite ?_ (keeps_ite (refuse_sameBut fd _)
    (keeps_ite (refuse_sameBut fd _) (keeps_ite (keeps_ite ?_ (refuse_sameBut fd _)) ?_))))
  · exact keeps_bind (updateFile_sameBut fd _) fun _ => keeps_pure _
  · exact keeps_bind (updateFile_sameBut fd _) fun _ => keeps_pure _
  · refine keeps_bind (keeps_ite (truncateFile_local ((sameBut_local fd).admits E)) (keeps_pure ())) fun _ => ?_
    exact keeps_bind (updateFile_sameBut fd _) fun _ => keeps_pure _

theorem openMissing_sameBut (flags : OpenFlags) (mode : ℕ) :
    Keeps (SameBut fd) (openMissing E fd flags mode) := by
  refine keeps_bind keeps_fatfs fun g => keeps_ite (refuse_sameBut fd _)
    (keeps_ite (refuse_sameBut fd _) ?_)
  exact keeps_bind ((sameBut_local fd).keeps (time_sameTable E)) fun _ =>
    keeps_bind (updateFile_sameBut fd _) fun _ => keeps_pure _

theorem closeSlot_sameBut : Keeps (SameBut fd) (closeSlot E fd) := by
  refine keeps_bind (keeps_file fd) fun f => keeps_ite (keeps_pure _) ?_
  refine keeps_bind (keeps_ite (keeps_bind (fatFlush_local ((sameBut_local fd).admits E)) fun _ => keeps_pure _)
    (keeps_pure _)) fun _ => keeps_ite (keeps_pure _) ?_
  refine keeps_bind (keeps_file fd) fun f => ?_
  refine keeps_bind (keeps_ite (keeps_bind (fatFlushFileinfo_local ((sameBut_local fd).admits E)) fun _ => keeps_pure _)
    (keeps_pure _)) fun _ => keeps_ite (keeps_pure _) ?_
  exact keeps_bind (updateFile_sameBut fd _) fun _ => keeps_pure _

theorem fstatSlot_sameBut : Keeps (SameBut fd) (fstatSlot fd) :=
  keeps_bind (keeps_file fd) fun _ => keeps_ite (keeps_pure _) (keeps_pure _)

end SameBut

/-! ### Calls on one descriptor -/

section OnDescriptor
variable {R : FatState → FatState → Prop} [Std.Refl R] {E : Env} {r : Fd}

omit [Std.Refl R] in
theorem withFd_keeps {α : Type} {bad : α} {x : Fd → FatM α} (h : Keeps R (x r)) :
    Keeps R (withFd r.val bad x) := by
  unfold withFd
  rw [dif_pos r.isLt]
  exact h

variable [IsTrans FatState R]

theorem nextDirentLoop_keeps {fd : ℕ} (hread : Keeps R (fatRead E fd 32)) (n : ℕ) :
    Keeps R (nextDirentLoop E fd n) := by
  induction n with
  | zero => exact keeps_stop .fuel
  | succ n ih =>
    refine keeps_bind hread fun p => ?_
    refine keeps_ite (keeps_pure _) (keeps_ite (keeps_pure _) (keeps_ite ih ?_))
    exact keeps_bind keeps_fatfs fun g => keeps_pure _

theorem rmdirLoop_keeps {fd : ℕ} (hread : Keeps R (fatRead E fd 32)) (n : ℕ) (e : ℤ) :
    Keeps R (rmdirLoop E fd n e) := by
  induction n generalizing e with
  | zero => exact keeps_stop .fuel
  | succ n ih =>
    refine keeps_bind (nextDirentLoop_keeps hread _) fun p => ?_
    exact keeps_ite (keeps_pure _) (keeps_ite (ih p.2.1) (keeps_pure _))

/-- A call on a descriptor preserves what the functions on that slot preserve. -/
theorem exec_keeps {c : Call} (hc : c.fd? = some r.val) (hread : ∀ n, Keeps R (readSlot E n r))
    (hwrite : ∀ bytes, Keeps R (writeSlot E bytes r)) (hseek : ∀ ptr dir, Keeps R (seekSlot E ptr dir r))
    (hstat : Keeps R (fstatSlot r)) (hclose : c = .close r.val → Keeps R (closeSlot E r)) :
    Keeps R (c.exec E) := by
  have hr {n : ℕ} (h : some n = some r.val) : n = r.val := Option.some.inj h
  cases c with
  | read fd n =>
    obtain rfl := hr hc
    exact keeps_bind (withFd_keeps (hread n)) fun _ => keeps_pure _
  | write fd bytes =>
    obtain rfl := hr hc
    exact keeps_bind (withFd_keeps (hwrite bytes)) fun _ => keeps_pure _
  | lseek fd ptr dir =>
    obtain rfl := hr hc
    exact keeps_bind (withFd_keeps (hseek ptr dir)) fun _ => keeps_pure _
  | fstat fd =>
    obtain rfl := hr hc
    exact keeps_bind (withFd_keeps hstat) fun _ => keeps_pure _
  | getNextDirent fd =>
    obtain rfl := hr hc
    exact keeps_bind (nextDirentLoop_keeps (withFd_keeps (hread 32)) _) fun _ => keeps_pure _
  | close fd =>
    obtain rfl := hr hc
    exact keeps_bind (withFd_keeps (hclose rfl)) fun _ => keeps_pure _
  | openPath path flags mode e => simp [Call.fd?] at hc
  | unlink path e => simp [Call.fd?] at hc
  | rmdir path e => simp [Call.fd?] at hc
  | mkdir path => simp [Call.fd?] at hc

end OnDescriptor

theorem exec_sameBut (E : Env) {r : Fd} {c : Call} (hc : c.fd? = some r.val) :
    Keeps (SameBut r) (c.exec E) :=
  exec_keeps hc (readSlot_sameBut E r) (writeSlot_sameBut E r) (seekSlot_sameBut E r)
    (fstatSlot_sameBut r) fun _ => closeSlot_sameBut E r

end Gristle
