import Gristle.Frame

/-! Descriptors that cannot write: not open for writing and with a clean buffer. Reading, seeking
and looking up a path with such a descriptor write no block. -/
namespace Gristle
open Prog

/-! ### The medium -/

def Event.isWrite : Event → Bool
  | .write .. => true
  | _ => false

/-- The blocks written so far, newest first. -/
def Device.writes (d : Device) : List Event := d.trace.filter Event.isWrite

/-- No block was written in between. -/
structure SameMedium (d e : Device) : Prop where
  blocks : e.blocks = d.blocks
  writes : e.writes = d.writes

instance : Std.Refl SameMedium := ⟨fun _ => ⟨rfl,rfl⟩⟩

instance : IsTrans Device SameMedium where
  trans _ _ _ h h' := ⟨h'.blocks.trans h.blocks,h'.writes.trans h.writes⟩

theorem blockRead_sameMedium (E : Env) (b : ℕ) : Keeps SameMedium (Device.blockRead E b) := by
  intro d a e h
  simp only [Device.blockRead,Except.ok.injEq,Prod.mk.injEq] at h
  rw [← h.2]
  exact ⟨rfl,rfl⟩

theorem time_sameMedium (E : Env) : Keeps SameMedium (Device.time E) := by
  intro d a e h
  simp only [Device.time,Except.ok.injEq,Prod.mk.injEq] at h
  rw [← h.2]
  exact ⟨rfl,rfl⟩

theorem junk_sameMedium (E : Env) : Keeps SameMedium (Device.junk E) := by
  intro d a e h
  simp only [Device.junk,Except.ok.injEq,Prod.mk.injEq] at h
  rw [← h.2]
  exact ⟨rfl,rfl⟩

theorem log_sameMedium {e : Event} (he : e.isWrite = false) : Keeps SameMedium (Device.log e) :=
  keeps_modify fun d => ⟨rfl,by simp [Device.writes,he]⟩

theorem sysUnlock_sameMedium : Keeps SameMedium Device.sysUnlock := log_sameMedium rfl

theorem sysLock_sameMedium (E : Env) : Keeps SameMedium (Device.sysLock E) := by
  intro d a e h
  simp only [Device.sysLock] at h
  split at h <;> simp only [Except.ok.injEq,Prod.mk.injEq] at h <;> rw [← h.2]
  · exact ⟨rfl,rfl⟩
  · exact ⟨rfl,by simp [Device.writes,Event.isWrite]⟩

/-! ### Quiet descriptors -/

structure FileS.Quiet (f : FileS) : Prop where
  clean : f.flags.dirty = false
  unwritable : f.flags.write = false

/-- What a descriptor remembers of its directory entry, times apart, and where that entry is. -/
def FileS.snapshot (f : FileS) :
    (Fin 8 → UInt8) × (Fin 3 → UInt8) × ℕ × ℕ × ℕ × ℕ :=
  (f.filename,f.extension,f.size,f.fullFirstCluster,f.entrySector,f.entryNumber)

/-- A quiet descriptor stays quiet and writes no block. -/
def Idle (fd : Fd) (s t : FatState) : Prop :=
  (s.fileNum fd).Quiet → (t.fileNum fd).Quiet ∧ SameMedium s.dev t.dev

/-- A quiet descriptor stays quiet, stands for the same entry and writes no block. -/
def Rests (fd : Fd) (s t : FatState) : Prop :=
  (s.fileNum fd).Quiet →
    (t.fileNum fd).Quiet ∧ SameMedium s.dev t.dev ∧
      (t.fileNum fd).snapshot = (s.fileNum fd).snapshot

instance (fd : Fd) : Std.Refl (Idle fd) := ⟨fun _ h => ⟨h,rfl,rfl⟩⟩
instance (fd : Fd) : Std.Refl (Rests fd) := ⟨fun _ h => ⟨h,⟨rfl,rfl⟩,rfl⟩⟩

instance (fd : Fd) : IsTrans FatState (Idle fd) where
  trans _ _ _ h h' hq :=
    have ⟨hq₁,hm₁⟩ := h hq
    have ⟨hq₂,hm₂⟩ := h' hq₁
    ⟨hq₂,IsTrans.trans _ _ _ hm₁ hm₂⟩

instance (fd : Fd) : IsTrans FatState (Rests fd) where
  trans _ _ _ h h' hq :=
    have ⟨hq₁,hm₁,he₁⟩ := h hq
    have ⟨hq₂,hm₂,he₂⟩ := h' hq₁
    ⟨hq₂,IsTrans.trans _ _ _ hm₁ hm₂,he₂.trans he₁⟩

theorem Rests.idle {fd : Fd} {s t : FatState} (h : Rests fd s t) : Idle fd s t :=
  fun hq => ⟨(h hq).1,(h hq).2.1⟩

section Rests
variable (E : Env) (fd : Fd)

theorem onDevice_rests {α : Type} {x : Prog Device α} (hx : Keeps SameMedium x) :
    Keeps (Rests fd) (onDevice x) := by
  intro s a t h hq
  obtain ⟨d,hd,rfl⟩ := onDevice_ok h
  exact ⟨hq,hx _ _ _ hd,rfl⟩

theorem updateFile_rests {u : FileS → FileS}
    (hu : ∀ f, (u f).flags.dirty = f.flags.dirty ∧ (u f).flags.write = f.flags.write ∧
      (u f).snapshot = f.snapshot) : Keeps (Rests fd) (updateFile fd u) := by
  refine keeps_modify fun s hq => ?_
  obtain ⟨hd,hw,hi⟩ := hu (s.fileNum fd)
  rw [FatState.setFile_self]
  exact ⟨⟨hd.trans hq.clean,hw.trans hq.unwritable⟩,⟨rfl,rfl⟩,hi⟩

theorem rests_file {α : Type} {k : FileS → FatM α} (h : ∀ f : FileS, f.Quiet → Keeps (Rests fd) (k f)) :
    Keeps (Rests fd) (file fd >>= k) := by
  intro s a t hk hq
  exact h _ hq s a t hk hq

theorem readBuffer_rests (b : ℕ) : Keeps (Rests fd) (readBuffer E fd b) := by
  refine keeps_bind (onDevice_rests fd (blockRead_sameMedium E b)) fun o => ?_
  cases o with
  | none => exact keeps_pure true
  | some d => exact keeps_bind (updateFile_rests fd fun _ => ⟨rfl,rfl,rfl⟩) fun _ => keeps_pure false

theorem time_rests : Keeps (Rests fd) (time E) := onDevice_rests fd (time_sameMedium E)

theorem junk_rests : Keeps (Rests fd) (junk E) := onDevice_rests fd (junk_sameMedium E)

theorem select_rests (g : FatInfo) (c : ℕ) (f : FileS) :
    (f.select g c).flags.dirty = f.flags.dirty ∧ (f.select g c).flags.write = f.flags.write ∧
      (f.select g c).snapshot = f.snapshot := by
  unfold FileS.select
  split <;> exact ⟨rfl,rfl,rfl⟩

theorem fatSelectCluster_rests (c : ℕ) : Keeps (Rests fd) (fatSelectCluster E fd c) :=
  keeps_bind keeps_fatfs fun g => keeps_bind (updateFile_rests fd (select_rests g c)) fun _ =>
    keeps_bind (keeps_file fd) fun _ => readBuffer_rests E fd _

theorem fatFlushWith_rests (flushFileinfo : Fd → FatM ℤ) :
    Keeps (Rests fd) (fatFlushWith flushFileinfo E fd) := by
  refine rests_file fd fun f hq => ?_
  simp only [hq.clean]
  exact keeps_pure 0

theorem fatNextClusterWith_rests (flushFileinfo : Fd → FatM ℤ) :
    Keeps (Rests fd) (fatNextClusterWith flushFileinfo E fd) := by
  refine keeps_bind (fatFlushWith_rests E fd _) fun _ => keeps_ite (keeps_pure _) ?_
  refine keeps_bind keeps_fatfs fun g => keeps_bind (keeps_file fd) fun f => keeps_ite ?_ ?_
  · exact keeps_bind (updateFile_rests fd fun _ => ⟨rfl,rfl,rfl⟩) fun _ => keeps_pure _
  · refine keeps_bind (readBuffer_rests E fd _) fun _ => keeps_ite (keeps_pure _) ?_
    refine rests_file fd fun f hq => keeps_ite ?_ (keeps_ite ?_ (keeps_pure _))
    · exact keeps_bind (updateFile_rests fd fun _ => ⟨rfl,rfl,rfl⟩) fun _ => keeps_pure _
    · simp only [hq.unwritable]
      exact keeps_bind (updateFile_rests fd fun _ => ⟨rfl,rfl,rfl⟩) fun _ => keeps_pure _

theorem fatNextSectorWith_rests (flushFileinfo : Fd → FatM ℤ) :
    Keeps (Rests fd) (fatNextSectorWith flushFileinfo E fd) := by
  refine keeps_bind (fatFlushWith_rests E fd _) fun _ => keeps_ite (keeps_pure _) ?_
  refine keeps_bind (keeps_file fd) fun f => keeps_ite ?_ ?_
  · exact keeps_bind (updateFile_rests fd fun _ => ⟨rfl,rfl,rfl⟩) fun _ =>
      keeps_bind (keeps_file fd) fun _ => readBuffer_rests E fd _
  · refine keeps_bind (fatNextClusterWith_rests E fd _) fun p => keeps_ite ?_ (keeps_pure _)
    exact keeps_bind (updateFile_rests fd fun _ => ⟨rfl,rfl,rfl⟩) fun _ =>
      fatSelectCluster_rests E fd _

theorem lazySector_rests (c : Prop) [Decidable c] :
    Keeps (Rests fd) (if c then fatNextSector E fd else pure false) :=
  keeps_ite (fatNextSectorWith_rests E fd _) (keeps_pure false)

/-! ### Reading and seeking -/

theorem fatUpdateAtime_rests : Keeps (Rests fd) (fatUpdateAtime E fd) := by
  refine keeps_bind (time_rests E fd) fun _ => keeps_bind (keeps_file fd) fun f => ?_
  refine keeps_ite (keeps_bind (time_rests E fd) fun _ => ?_) (keeps_pure ())
  exact updateFile_rests fd fun _ => ⟨rfl,rfl,rfl⟩

theorem readLoop_rests (n : ℕ) : Keeps (Rests fd) (readLoop E fd n) := by
  induction n with
  | zero => exact keeps_pure _
  | succ n ih =>
    refine keeps_bind (keeps_file fd) fun f => keeps_ite (keeps_pure _) ?_
    refine keeps_bind (lazySector_rests E fd _) fun _ => keeps_ite (keeps_pure _) ?_
    exact keeps_bind (keeps_file fd) fun _ =>
      keeps_bind (updateFile_rests fd fun _ => ⟨rfl,rfl,rfl⟩) fun _ =>
      keeps_bind ih fun _ => keeps_pure _

theorem readSlot_rests (count : ℕ) : Keeps (Rests fd) (readSlot E count fd) := by
  refine keeps_bind (keeps_file fd) fun f => keeps_ite (keeps_pure _) ?_
  refine keeps_bind (readLoop_rests E fd count) fun _ => ?_
  exact keeps_bind (keeps_ite (fatUpdateAtime_rests E fd) (keeps_pure ())) fun _ => keeps_pure _

theorem walkClusters_rests (n : ℕ) (e : ℤ) : Keeps (Rests fd) (walkClusters E fd n e) := by
  induction n generalizing e with
  | zero => exact keeps_pure e
  | succ n ih =>
    exact keeps_bind (fatNextClusterWith_rests E fd _) fun p =>
      keeps_bind (updateFile_rests fd fun _ => ⟨rfl,rfl,rfl⟩) fun _ => ih p.2

theorem seekChain_rests (ptr : ℤ) (newPos : ℕ) : Keeps (Rests fd) (seekChain E fd ptr newPos) := by
  refine keeps_bind keeps_fatfs fun g => keeps_bind (updateFile_rests fd fun _ => ⟨rfl,rfl,rfl⟩)
    fun _ => ?_
  refine keeps_bind (walkClusters_rests E fd _ _) fun _ => ?_
  refine keeps_bind (updateFile_rests fd fun _ => ⟨rfl,rfl,rfl⟩) fun _ =>
    keeps_bind (keeps_file fd) fun _ => ?_
  exact keeps_bind (readBuffer_rests E fd _) fun _ => keeps_ite (keeps_pure _) (keeps_pure _)

theorem seekSlot_rests (ptr : ℤ) (dir : Whence) : Keeps (Rests fd) (seekSlot E ptr dir fd) := by
  refine keeps_bind (keeps_file fd) fun f => keeps_ite (keeps_pure _) ?_
  refine keeps_bind (fatFlushWith_rests E fd _) fun _ => keeps_bind (keeps_file fd) fun f => ?_
  refine keeps_bind keeps_fatfs fun g => keeps_ite (keeps_pure _) ?_
  refine keeps_bind (lazySector_rests E fd _) fun _ => keeps_ite ?_ (keeps_ite ?_ ?_)
  · exact keeps_bind (updateFile_rests fd fun _ => ⟨rfl,rfl,rfl⟩) fun _ => keeps_pure _
  · exact keeps_bind (updateFile_rests fd fun _ => ⟨rfl,rfl,by simp only [FileS.snapshot]⟩) fun _ =>
      keeps_bind (keeps_file fd) fun _ => keeps_bind (readBuffer_rests E fd _) fun _ =>
      keeps_ite (keeps_pure _) (keeps_pure _)
  · exact seekChain_rests E fd ptr _

/-- Without the write bit a write is refused. -/
theorem writeSlot_rests (bytes : List UInt8) : Keeps (Rests fd) (writeSlot E bytes fd) := by
  refine rests_file fd fun f hq => ?_
  simp only [hq.unwritable,or_true,if_true]
  exact keeps_pure _

theorem fstatSlot_rests : Keeps (Rests fd) (fstatSlot fd) :=
  keeps_bind (keeps_file fd) fun _ => keeps_ite (keeps_pure _) (keeps_pure _)

/-- A call on a quiet descriptor other than its close writes nothing. -/
theorem exec_rests {c : Call} (hc : c.fd? = some fd.val) (hclose : c ≠ .close fd.val) :
    Keeps (Rests fd) (c.exec E) :=
  exec_keeps hc (readSlot_rests E fd) (writeSlot_rests E fd) (seekSlot_rests E fd) (fstatSlot_rests fd)
    fun he => absurd he hclose

end Rests

/-! ### Looking up a path -/

section Idle
variable (E : Env) (fd : Fd)

theorem keeps_idle {α : Type} {x : FatM α} (h : Keeps (Rests fd) x) : Keeps (Idle fd) x :=
  h.mono fun _ _ hst => hst.idle

theorem updateFile_idle {u : FileS → FileS} (hu : ∀ f : FileS, f.Quiet → (u f).Quiet) :
    Keeps (Idle fd) (updateFile fd u) := by
  refine keeps_modify fun s hq => ?_
  rw [FatState.setFile_self]
  exact ⟨hu _ hq,rfl,rfl⟩

theorem scanLoop_idle (name : DosName) (n : ℕ) : Keeps (Idle fd) (scanLoop E fd name n) := by
  induction n with
  | zero => exact keeps_stop .fuel
  | succ n ih =>
    refine keeps_bind (keeps_file fd) fun f => ?_
    cases searchSlots name.byte f.buffer 16 0 with
    | last => exact keeps_pure none
    | found i => exact keeps_pure (some i)
    | absent =>
      exact keeps_bind (keeps_idle fd (fatNextSectorWith_rests E fd _)) fun _ =>
        keeps_ite (keeps_pure none) ih

theorem lookupLoop_idle (elements : List (List UInt8)) (name : DosName) (e : ℤ) :
    Keeps (Idle fd) (lookupLoop E fd elements name e) := by
  induction elements generalizing name e with
  | nil => exact keeps_pure _
  | cons element rest ih =>
    refine keeps_bind (liftStop_keeps _) fun o => ?_
    cases o with
    | none => exact keeps_pure _
    | some name =>
      refine keeps_bind (scanLoop_idle E fd name _) fun o => ?_
      cases o with
      | none => exact keeps_bind (updateFile_idle fd fun f hq => ⟨hq.1,hq.2⟩) fun _ => keeps_pure _
      | some i =>
        refine keeps_bind (keeps_file fd) fun f => keeps_bind keeps_fatfs fun g => ?_
        have hselect (c : ℕ) := keeps_idle fd (fatSelectCluster_rests E fd c)
        refine keeps_ite ?_ (keeps_ite ?_ (keeps_pure _))
        · exact keeps_bind (updateFile_idle fd fun _ _ => ⟨rfl,rfl⟩) fun _ =>
            keeps_bind (keeps_file fd) fun _ => keeps_bind (hselect _) fun _ => keeps_pure _
        · exact keeps_bind (updateFile_idle fd fun f hq => ⟨hq.1,hq.2⟩) fun _ =>
            keeps_bind (hselect _) fun _ => ih name e

theorem fatLookupPath_idle (path : List UInt8) (e : ℤ) :
    Keeps (Idle fd) (fatLookupPath E fd path e) := by
  have hselect (c : ℕ) := keeps_idle fd (fatSelectCluster_rests E fd c)
  refine keeps_ite (keeps_pure _) (keeps_bind keeps_fatfs fun g => ?_)
  refine keeps_bind (keeps_idle fd (junk_rests E fd)) fun _ => keeps_bind (hselect _) fun _ => ?_
  cases (pathElements path).take 20 with
  | nil =>
    refine keeps_bind (updateFile_idle fd fun f hq => ⟨hq.1,hq.2⟩) fun _ => ?_
    exact keeps_bind (hselect _) fun _ => keeps_pure _
  | cons element rest =>
    refine keeps_bind (updateFile_idle fd fun f hq => ⟨hq.1,hq.2⟩) fun _ => ?_
    exact lookupLoop_idle E fd _ _ e

end Idle

end Gristle
