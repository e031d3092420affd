import Gristle.Directory
import Gristle.Updates

/-! Calls that discard no failure are calls of the driver and update the metadata in order, whatever
reads fail. -/
namespace Gristle
open Prog

/-- A program that discards no failure, beside the one of the driver it stands for. -/
structure Heeds {α : Type} (x y : FatM α) : Prop where
  within : Within x y
  tidy : Keeps Tidy x

section Rules
variable {α β : Type}

theorem heeds_of_tidy {x : FatM α} (h : Keeps Tidy x) : Heeds x x := ⟨within_refl x,h⟩

theorem heeds_pure (a : α) : Heeds (pure a) (pure a) := heeds_of_tidy (keeps_pure a)
theorem heeds_file (fd : Fd) : Heeds (file fd) (file fd) := heeds_of_tidy (keeps_file fd)
theorem heeds_fatfs : Heeds fatfs fatfs := heeds_of_tidy keeps_fatfs

theorem heeds_update (fd : Fd) (u : FileS → FileS) : Heeds (updateFile fd u) (updateFile fd u) :=
  heeds_of_tidy (updateFile_tidy fd u)

theorem heeds_read (E : Env) (fd : Fd) (b : ℕ) : Heeds (readBuffer E fd b) (readBuffer E fd b) :=
  heeds_of_tidy (readBuffer_tidy E fd b)

theorem heeds_stop (e : Stop) (y : FatM α) : Heeds (stop e) y := ⟨within_stop e y,keeps_stop e⟩

theorem heeds_ite {c : Prop} [Decidable c] {x y x' y' : FatM α} (hx : Heeds x x') (hy : Heeds y y') :
    Heeds (if c then x else y) (if c then x' else y') :=
  ⟨within_ite hx.within hy.within,keeps_ite hx.tidy hy.tidy⟩

theorem heeds_dite {c : Prop} [Decidable c] {x x' : c → FatM α} {y y' : FatM α}
    (hx : ∀ h, Heeds (x h) (x' h)) (hy : Heeds y y') :
    Heeds (if h : c then x h else y) (if h : c then x' h else y') := by
  split
  · exact hx _
  · exact hy

theorem heeds_bind {x x' : FatM α} {f f' : α → FatM β} (hx : Heeds x x')
    (hf : ∀ a, Heeds (f a) (f' a)) : Heeds (x >>= f) (x' >>= f') :=
  ⟨within_bind hx.within fun a => (hf a).within,keeps_bind hx.tidy fun a => (hf a).tidy⟩

/-- Where the driver goes on after a failure, the strict program may stop. -/
theorem heeds_guard {b : Bool} {e : Stop} {x y : FatM α} (h : Heeds x y) :
    Heeds (if b = true then stop e else x) y :=
  ⟨within_guard h.within,keeps_ite (keeps_stop e) h.tidy⟩

end Rules

theorem readBuffer_loads {E : Env} {fd : Fd} {b : ℕ} {s t : FatState}
    (h : readBuffer E fd b s = .ok (false,t)) :
    After fd s t s.dev.blocks { s.fileNum fd with buffer := s.dev.blocks b } := by
  rcases readBuffer_result h with ⟨h,-⟩ | ⟨-,h⟩
  · exact absurd h (by decide)
  · exact h

theorem fatSelectCluster_loads {E : Env} {fd : Fd} {c : ℕ} {s t : FatState}
    (h : fatSelectCluster E fd c s = .ok (false,t)) : (t.fileNum fd).Loaded t.dev.blocks := by
  obtain ⟨buf,ht,hbuf⟩ := fatSelectCluster_result h
  rw [ht.file,ht.blocks]
  exact hbuf rfl

/-- A step to the next sector that reports no failure has read that sector. -/
theorem fatNextSectorWith_loads {E : Env} {ffi : Fd → FatM ℤ} {fd : Fd} {s t : FatState}
    (h : fatNextSectorWith ffi E fd s = .ok (false,t)) : (t.fileNum fd).Loaded t.dev.blocks := by
  obtain ⟨r,u,hu,h⟩ := bind_ok h
  rw [run_ite] at h
  split at h
  · exact absurd (pure_ok h).1 (by decide)
  rw [bind_of_ok rfl,run_ite] at h
  split at h
  · obtain ⟨x,v,hv,h⟩ := bind_ok h
    rw [bind_of_ok rfl] at h
    have ht := readBuffer_loads h
    rw [ht.file,ht.blocks]
    rfl
  · obtain ⟨p,v,hv,h⟩ := bind_ok h
    simp only [run_ite] at h
    split at h
    · obtain ⟨x,w,hw,h⟩ := bind_ok h
      exact fatSelectCluster_loads h
    · exact absurd (pure_ok h).1 (by decide)

section Flush
variable {E : Env} (hw : ∀ n, E.writeFails n = false) {ffi ffi' : Fd → FatM ℤ} {fd : Fd}
  (hf : Heeds (ffi' fd) (ffi fd))
include hw

theorem heeds_data (b : ℕ) (data : Sector) :
    Heeds (writeBlock E .fatFlush b data) (writeBlock E .fatFlush b data) :=
  heeds_of_tidy (writeData_tidy hw b data)

theorem heeds_freeCluster : Heeds (fatGetFreeCluster E) (fatGetFreeCluster E) :=
  heeds_of_tidy (fatGetFreeCluster_tidy hw)

include hf

theorem fatFlushWith_heeds : Heeds (fatFlushWith ffi' E fd) (fatFlushWith ffi E fd) := by
  refine heeds_bind (heeds_file fd) fun f => heeds_ite (heeds_ite ?_ ?_) (heeds_pure 0)
  · refine heeds_bind (heeds_freeCluster hw) fun c => ?_
    refine heeds_ite (heeds_pure _) (heeds_ite (heeds_pure _) ?_)
    refine heeds_bind heeds_fatfs fun g => heeds_bind (heeds_update fd _) fun _ => ?_
    refine heeds_bind (heeds_file fd) fun _ => heeds_bind (heeds_data hw _ _) fun _ => ?_
    refine heeds_ite (heeds_pure _) (heeds_bind (heeds_update fd _) fun _ => ?_)
    exact heeds_bind hf fun _ => heeds_pure 0
  · refine heeds_bind (heeds_data hw _ _) fun _ => heeds_ite (heeds_pure _) ?_
    exact heeds_bind (heeds_update fd _) fun _ => heeds_pure 0

/-- The link to a new cluster is stored in the block of the table that was just read. -/
theorem extendChain_tidy : Keeps Tidy (extendChain ffi' E fd) := by
  refine keeps_bind (fatGetFreeCluster_tidy hw) fun k => ?_
  refine keeps_ite (keeps_pure _) (keeps_ite (keeps_pure _) ?_)
  intro s a t h
  rw [bind_of_ok rfl,bind_of_ok rfl] at h
  obtain ⟨failed,u,hu,h⟩ := bind_ok h
  have hsu := readBuffer_tidy E fd _ _ _ _ hu
  cases failed with
  | true =>
    rw [run_ite,if_pos rfl] at h
    obtain ⟨-,rfl⟩ := pure_ok h
    exact hsu
  | false =>
    have hbuf := readBuffer_loads hu
    rw [run_ite,if_neg (by simp)] at h
    obtain ⟨x,v,hv,h⟩ := bind_ok h
    have hsv : Tidy s v := IsTrans.trans _ _ _ hsu (updateFile_tidy fd _ _ _ _ hv)
    have hv := updateFile_result hv
    rw [bind_of_ok rfl] at h
    obtain ⟨failed',w,hw',h⟩ := bind_ok h
    have hg : v.fatfs = s.fatfs := hv.fatfs.trans hbuf.fatfs
    have hvw := writeBlock_tidy hw hw' fun _ => by
      refine ⟨(s.fileNum fd).cluster,k,?_,?_⟩
      · rw [hg,hv.file,hbuf.file]
      · rw [hg,hv.file,hv.blocks,hbuf.file,hbuf.blocks]
    have hsw : Tidy s w := IsTrans.trans _ _ _ hsv hvw
    rw [run_ite] at h
    split at h
    · obtain ⟨-,rfl⟩ := pure_ok h
      exact hsw
    · obtain ⟨y,x',hx,h⟩ := bind_ok h
      obtain ⟨-,rfl⟩ := pure_ok h
      exact IsTrans.trans _ _ _ hsw (hf.tidy _ _ _ hx)

theorem extendChain_heeds : Heeds (extendChain ffi' E fd) (extendChain ffi E fd) := by
  refine ⟨?_,extendChain_tidy hw hf⟩
  refine within_bind (within_refl _) fun k => within_ite (within_refl _) (within_ite (within_refl _) ?_)
  refine within_bind (within_refl _) fun g => within_bind (within_refl _) fun f => ?_
  refine within_bind (within_refl _) fun _ => within_ite (within_refl _) ?_
  refine within_bind (within_refl _) fun _ => within_bind (within_refl _) fun _ => ?_
  refine within_bind (within_refl _) fun _ => within_ite (within_refl _) ?_
  exact within_bind hf.within fun _ => within_refl _

theorem fatNextClusterWith_heeds :
    Heeds (fatNextClusterWith ffi' E fd) (fatNextClusterWith ffi E fd) := by
  refine heeds_bind (fatFlushWith_heeds hw hf) fun _ => heeds_ite (heeds_pure _) ?_
  refine heeds_bind heeds_fatfs fun g => heeds_bind (heeds_file fd) fun f => heeds_ite ?_ ?_
  · exact heeds_bind (heeds_update fd _) fun _ => heeds_pure _
  · refine heeds_bind (heeds_read E fd _) fun _ => heeds_ite (heeds_pure _) ?_
    refine heeds_bind (heeds_file fd) fun f => heeds_ite ?_ (heeds_ite (heeds_ite ?_ ?_) (heeds_pure _))
    · exact heeds_bind (heeds_update fd _) fun _ => heeds_pure _
    · exact extendChain_heeds hw hf
    · exact heeds_bind (heeds_update fd _) fun _ => heeds_pure _

theorem fatNextSectorWith_heeds : Heeds (fatNextSectorWith ffi' E fd) (fatNextSectorWith ffi E fd) := by
  refine heeds_bind (fatFlushWith_heeds hw hf) fun _ => heeds_ite (heeds_pure _) ?_
  refine heeds_bind (heeds_file fd) fun f => heeds_ite ?_ ?_
  · exact heeds_bind (heeds_update fd _) fun _ => heeds_bind (heeds_file fd) fun _ => heeds_read E fd _
  · refine heeds_bind (fatNextClusterWith_heeds hw hf) fun p => heeds_ite ?_ (heeds_pure _)
    exact heeds_bind (heeds_update fd _) fun _ => heeds_of_tidy (fatSelectCluster_tidy E fd _)

/-! ### The directory entry -/

theorem emptySlotLoop_heeds (n : ℕ) :
    Heeds (Strict.emptySlotLoop ffi' E fd n) (emptySlotLoop ffi E fd n) := by
  induction n with
  | zero => exact heeds_stop _ _
  | succ n ih =>
    refine heeds_bind (heeds_file fd) fun f => ?_
    cases emptySlot f.buffer 16 0 with
    | some i => exact heeds_pure i
    | none => exact heeds_bind (fatNextSectorWith_heeds hw hf) fun _ => heeds_guard ih

omit hw hf in
/-- The search ends on a block that was read. -/
theorem emptySlotLoop_loaded {n i : ℕ} {s t : FatState}
    (h : Strict.emptySlotLoop ffi' E fd n s = .ok (i,t)) (hs : (s.fileNum fd).Loaded s.dev.blocks) :
    (t.fileNum fd).Loaded t.dev.blocks := by
  induction n generalizing s with
  | zero => simp [Strict.emptySlotLoop] at h
  | succ n ih =>
    rw [Strict.emptySlotLoop,bind_of_ok rfl] at h
    cases hslot : emptySlot (s.fileNum fd).buffer 16 0 with
    | some j =>
      rw [hslot] at h
      obtain ⟨-,rfl⟩ := pure_ok h
      exact hs
    | none =>
      rw [hslot] at h
      obtain ⟨failed,u,hu,h⟩ := bind_ok h
      rw [run_ite] at h
      split at h
      · simp at h
      · rw [Bool.not_eq_true] at *
        subst failed
        exact ih h (fatNextSectorWith_loads hu)

theorem locateEntry_heeds : Heeds (Strict.locateEntry ffi' E fd) (locateEntry ffi E fd) := by
  refine heeds_bind (heeds_file fd) fun f => heeds_ite ?_ (heeds_read E fd _)
  refine heeds_bind (heeds_of_tidy (fatSelectCluster_tidy E fd _)) fun _ => heeds_guard ?_
  exact heeds_bind (emptySlotLoop_heeds hw hf _) fun _ =>
    heeds_bind (heeds_update fd _) fun _ => heeds_pure _

omit hw hf in
/-- The block with the entry is in the buffer. -/
theorem locateEntry_loaded {s t : FatState} (h : Strict.locateEntry ffi' E fd s = .ok (false,t)) :
    (t.fileNum fd).buffer = t.dev.blocks (t.fileNum fd).entrySector := by
  rw [Strict.locateEntry,bind_of_ok rfl,run_ite] at h
  split at h
  · obtain ⟨failed,u,hu,h⟩ := bind_ok h
    rw [run_ite] at h
    split at h
    · simp at h
    rw [Bool.not_eq_true] at *
    subst failed
    obtain ⟨i,v,hv,h⟩ := bind_ok h
    obtain ⟨x,w,hw,h⟩ := bind_ok h
    obtain ⟨-,rfl⟩ := pure_ok h
    have hl := emptySlotLoop_loaded hv (fatSelectCluster_loads hu)
    have hw := updateFile_result hw
    rw [hw.file,hw.blocks]
    exact hl
  · have ht := readBuffer_loads h
    rw [ht.file,ht.blocks]

theorem flushFileinfoBody_tidy : Keeps Tidy (Strict.flushFileinfoBody ffi' E fd) := by
  refine keeps_bind (keeps_file fd) fun f => keeps_bind keeps_fatfs fun g => ?_
  refine keeps_ite (keeps_pure 0) (keeps_ite (keeps_pure 0) (keeps_ite (keeps_pure 0) ?_))
  refine keeps_bind (junk_tidy E) fun j => ?_
  refine keeps_bind (fatFlushWith_heeds hw hf).tidy fun _ => keeps_ite (keeps_pure _) ?_
  intro s a t h
  obtain ⟨failed,u,hu,h⟩ := bind_ok h
  have hsu := (locateEntry_heeds hw hf).tidy _ _ _ hu
  cases failed with
  | true =>
    rw [run_ite,if_pos rfl] at h
    obtain ⟨-,rfl⟩ := pure_ok h
    exact hsu
  | false =>
    have hbuf := locateEntry_loaded hu
    rw [run_ite,if_neg (by simp)] at h
    obtain ⟨x,v,hv,h⟩ := bind_ok h
    have hsv : Tidy s v := IsTrans.trans _ _ _ hsu (updateFile_tidy fd _ _ _ _ hv)
    have hv := updateFile_result hv
    rw [bind_of_ok rfl] at h
    obtain ⟨failed',w,hw',h⟩ := bind_ok h
    have hvw := writeBlock_tidy hw hw' fun _ => by
      refine ⟨(u.fileNum fd).entryNumber,f.toDirent E (j 12),?_⟩
      rw [hv.file,hv.blocks,hbuf]
    have hsw : Tidy s w := IsTrans.trans _ _ _ hsv hvw
    refine IsTrans.trans _ _ _ hsw (Keeps.of_ok ?_ h)
    refine keeps_ite (keeps_pure _) (keeps_bind (readBuffer_tidy E fd _) fun _ => ?_)
    exact keeps_ite (keeps_pure _) (keeps_bind (updateFile_tidy fd _) fun _ => keeps_pure 0)

theorem flushFileinfoBody_heeds :
    Heeds (Strict.flushFileinfoBody ffi' E fd) (flushFileinfoBody ffi E fd) := by
  refine ⟨?_,flushFileinfoBody_tidy hw hf⟩
  refine within_bind (within_refl _) fun f => within_bind (within_refl _) fun g => ?_
  refine within_ite (within_refl _) (within_ite (within_refl _) (within_ite (within_refl _) ?_))
  refine within_bind (within_refl _) fun j => ?_
  refine within_bind (fatFlushWith_heeds hw hf).within fun _ => within_ite (within_refl _) ?_
  exact within_bind (locateEntry_heeds hw hf).within fun _ => within_refl _

omit hf in
theorem fatFlushFileinfoAux_heeds (n : ℕ) (fd : Fd) :
    Heeds (Strict.fatFlushFileinfoAux E n fd) (fatFlushFileinfoAux E n fd) := by
  induction n with
  | zero => exact heeds_stop _ _
  | succ n ih => exact flushFileinfoBody_heeds hw ih

end Flush

section Descriptor
variable {E : Env} (hw : ∀ n, E.writeFails n = false) (fd : Fd)
include hw

theorem fatFlushFileinfo_heeds : Heeds (Strict.fatFlushFileinfo E fd) (fatFlushFileinfo E fd) :=
  fatFlushFileinfoAux_heeds hw _ fd

theorem fatFlush_heeds : Heeds (Strict.fatFlush E fd) (fatFlush E fd) :=
  fatFlushWith_heeds hw (fatFlushFileinfo_heeds hw fd)

theorem fatNextCluster_heeds : Heeds (Strict.fatNextCluster E fd) (fatNextCluster E fd) :=
  fatNextClusterWith_heeds hw (fatFlushFileinfo_heeds hw fd)

theorem fatNextSector_heeds : Heeds (Strict.fatNextSector E fd) (fatNextSector E fd) :=
  fatNextSectorWith_heeds hw (fatFlushFileinfo_heeds hw fd)

theorem lazySector_heeds (c : Prop) [Decidable c] :
    Heeds (if c then Strict.fatNextSector E fd else pure false)
      (if c then fatNextSector E fd else pure false) :=
  heeds_ite (fatNextSector_heeds hw fd) (heeds_pure false)

theorem closeSlot_heeds : Heeds (Strict.closeSlot E fd) (closeSlot E fd) := by
  refine heeds_bind (heeds_file fd) fun f => heeds_ite (heeds_pure _) ?_
  refine heeds_bind (heeds_ite (heeds_bind (fatFlush_heeds hw fd) fun _ => heeds_pure _)
    (heeds_pure _)) fun _ => heeds_ite (heeds_pure _) ?_
  refine heeds_bind (heeds_file fd) fun f => ?_
  refine heeds_bind (heeds_ite (heeds_bind (fatFlushFileinfo_heeds hw fd) fun _ => heeds_pure _)
    (heeds_pure _)) fun _ => heeds_ite (heeds_pure _) ?_
  exact heeds_bind (heeds_update fd _) fun _ => heeds_pure _

/-! ### Reading, seeking and writing -/

omit hw in
theorem fatUpdateAtime_tidy : Keeps Tidy (fatUpdateAtime E fd) := by
  refine keeps_bind (time_tidy E) fun _ => keeps_bind (keeps_file fd) fun f => keeps_ite ?_ (keeps_pure ())
  exact keeps_bind (time_tidy E) fun _ => updateFile_tidy fd _

omit hw in
theorem fatUpdateMtime_tidy : Keeps Tidy (fatUpdateMtime E fd) :=
  keeps_bind (time_tidy E) fun _ => updateFile_tidy fd _

theorem readLoop_heeds (n : ℕ) : Heeds (Strict.readLoop E fd n) (readLoop E fd n) := by
  induction n with
  | zero => exact heeds_pure _
  | succ n ih =>
    refine heeds_bind (heeds_file fd) fun f => heeds_ite (heeds_pure _) ?_
    refine heeds_bind (lazySector_heeds hw fd _) fun _ => heeds_ite (heeds_pure _) ?_
    exact heeds_bind (heeds_file fd) fun _ => heeds_bind (heeds_update fd _) fun _ =>
      heeds_bind ih fun _ => heeds_pure _

theorem readSlot_heeds (count : ℕ) : Heeds (Strict.readSlot E count fd) (readSlot E count fd) := by
  refine heeds_bind (heeds_file fd) fun f => heeds_ite (heeds_pure _) ?_
  refine heeds_bind (readLoop_heeds hw fd count) fun _ => ?_
  exact heeds_bind (heeds_of_tidy (keeps_ite (fatUpdateAtime_tidy fd) (keeps_pure ()))) fun _ => heeds_pure _

theorem walkClusters_heeds (n : ℕ) (e : ℤ) :
    Heeds (Strict.walkClusters E fd n e) (walkClusters E fd n e) := by
  induction n generalizing e with
  | zero => exact heeds_pure e
  | succ n ih =>
    exact heeds_bind (fatNextCluster_heeds hw fd) fun p => heeds_bind (heeds_update fd _) fun _ => ih p.2

theorem seekChain_heeds (ptr : ℤ) (newPos : ℕ) :
    Heeds (Strict.seekChain E fd ptr newPos) (seekChain E fd ptr newPos) := by
  refine heeds_bind heeds_fatfs fun g => heeds_bind (heeds_update fd _) fun _ => ?_
  refine heeds_bind (walkClusters_heeds hw fd _ _) fun _ => ?_
  refine heeds_bind (heeds_update fd _) fun _ => heeds_bind (heeds_file fd) fun _ => ?_
  exact heeds_bind (heeds_read E fd _) fun _ => heeds_ite (heeds_pure _) (heeds_pure _)

theorem seekSlot_heeds (ptr : ℤ) (dir : Whence) :
    Heeds (Strict.seekSlot E ptr dir fd) (seekSlot E ptr dir fd) := by
  refine heeds_bind (heeds_file fd) fun f => heeds_ite (heeds_pure _) ?_
  refine heeds_bind (fatFlush_heeds hw fd) fun _ => heeds_bind (heeds_file fd) fun f => ?_
  refine heeds_bind heeds_fatfs fun g => heeds_ite (heeds_pure _) ?_
  refine heeds_bind (lazySector_heeds hw fd _) fun _ => heeds_ite ?_ (heeds_ite ?_ ?_)
  · exact heeds_bind (heeds_update fd _) fun _ => heeds_pure _
  · exact heeds_bind (heeds_update fd _) fun _ => heeds_bind (heeds_file fd) fun _ =>
      heeds_bind (heeds_read E fd _) fun _ => heeds_ite (heeds_pure _) (heeds_pure _)
  · exact seekChain_heeds hw fd ptr _

theorem writeLoop_heeds (bytes : List UInt8) :
    Heeds (Strict.writeLoop E fd bytes) (writeLoop E fd bytes) := by
  induction bytes with
  | nil => exact heeds_pure false
  | cons c cs ih =>
    refine heeds_bind (heeds_file fd) fun f => heeds_bind (lazySector_heeds hw fd _) fun _ => ?_
    refine heeds_ite (heeds_pure true) ?_
    exact heeds_bind (heeds_update fd _) fun _ => heeds_bind (heeds_update fd _) fun _ => ih

theorem writeSlot_heeds (bytes : List UInt8) :
    Heeds (Strict.writeSlot E bytes fd) (writeSlot E bytes fd) := by
  refine heeds_bind (heeds_file fd) fun f => heeds_ite (heeds_pure _) ?_
  refine heeds_bind (heeds_ite (seekSlot_heeds hw fd _ _) (heeds_pure _)) fun p => ?_
  refine heeds_bind (writeLoop_heeds hw fd bytes) fun _ => heeds_ite (heeds_pure _) ?_
  exact heeds_bind (heeds_of_tidy (keeps_ite (fatUpdateMtime_tidy fd) (keeps_pure ()))) fun _ => heeds_pure _

omit hw in
theorem fstatSlot_heeds : Heeds (fstatSlot fd) (fstatSlot fd) :=
  heeds_bind (heeds_file fd) fun _ => heeds_ite (heeds_pure _) (heeds_pure _)

/-! ### `fat_delete` -/

theorem fatDelete_heeds : Heeds (Strict.fatDelete E fd) (fatDelete E fd) := by
  constructor
  · exact within_bind (within_refl _) fun f => within_bind (within_refl _) fun failed =>
      within_guard (within_refl _)
  · intro s a t h
    rw [Strict.fatDelete,bind_of_ok rfl] at h
    obtain ⟨failed,u,hu,h⟩ := bind_ok h
    have hsu := readBuffer_tidy E fd _ _ _ _ hu
    rw [run_ite] at h
    split at h
    · simp at h
    rw [Bool.not_eq_true] at *
    subst failed
    have hbuf := readBuffer_loads hu
    obtain ⟨x,v,hv,h⟩ := bind_ok h
    have hsv : Tidy s v := IsTrans.trans _ _ _ hsu (updateFile_tidy fd _ _ _ _ hv)
    have hv := updateFile_result hv
    rw [bind_of_ok rfl] at h
    obtain ⟨failed',w,hw',h⟩ := bind_ok h
    have hvw := writeBlock_tidy hw hw' fun _ => by
      refine ⟨(s.fileNum fd).entryNumber,?_⟩
      rw [hv.file,hv.blocks,hbuf.file,hbuf.blocks]
    have hsw : Tidy s w := IsTrans.trans _ _ _ hsv hvw
    refine IsTrans.trans _ _ _ hsw (Keeps.of_ok ?_ h)
    exact keeps_bind (fatFreeClusters_tidy hw _) fun _ => updateFile_tidy fd _

end Descriptor

/-! ### `fat_open` -/

theorem nextFileLoop_tidy (n j : ℕ) : Keeps Tidy (nextFileLoop n j) := by
  induction n generalizing j with
  | zero => exact keeps_pure none
  | succ n ih =>
    rw [nextFileLoop]
    split
    · refine keeps_bind (keeps_file _) fun f => keeps_ite (ih (j+1)) ?_
      exact keeps_bind (updateFile_tidy _ _) fun _ => keeps_pure _
    · exact keeps_pure none

/-- A lookup with a quiet descriptor writes nothing. -/
theorem fatLookupPath_tidy {E : Env} {fd : Fd} {path : List UInt8} {e : ℤ} {s t : FatState} {p : ℤ × ℤ}
    (h : fatLookupPath E fd path e s = .ok (p,t)) (hq : (s.fileNum fd).Quiet) : Tidy s t := by
  intro _
  have hbut := fatLookupPath_sameBut E fd path e _ _ _ h
  exact ⟨hbut.fatfs,(fatLookupPath_idle E fd path e _ _ _ h hq).2.recorded hbut.device⟩

theorem refuse_tidy (fd : Fd) (e : ℤ) : Keeps Tidy (refuse fd e) :=
  keeps_bind (updateFile_tidy fd _) fun _ => keeps_pure _

theorem openMissing_tidy (E : Env) (fd : Fd) (flags : OpenFlags) (mode : ℕ) :
    Keeps Tidy (openMissing E fd flags mode) := by
  refine keeps_bind keeps_fatfs fun g => keeps_ite (refuse_tidy fd _) (keeps_ite (refuse_tidy fd _) ?_)
  exact keeps_bind (time_tidy E) fun _ => keeps_bind (updateFile_tidy fd _) fun _ => keeps_pure _

section Calls
variable {E : Env} (hw : ∀ n, E.writeFails n = false)
include hw

theorem openExisting_tidy (fd : Fd) (flags : OpenFlags) (e : ℤ) :
    Keeps Tidy (openExisting E fd flags e) := by
  have htruncate : Keeps Tidy (truncateFile E fd) :=
    keeps_bind (keeps_file fd) fun _ => keeps_bind (fatFreeClusters_tidy hw _) fun _ =>
      keeps_bind (updateFile_tidy fd _) fun _ => keeps_bind (time_tidy E) fun _ =>
      keeps_bind (updateFile_tidy fd _) fun _ => keeps_bind (time_tidy E) fun _ => updateFile_tidy fd _
  refine keeps_bind keeps_fatfs fun g => keeps_bind (keeps_file fd) fun f => ?_
  refine keeps_ite (refuse_tidy fd _) (keeps_ite ?_ (keeps_ite (refuse_tidy fd _)
    (keeps_ite (refuse_tidy fd _) (keeps_ite (keeps_ite ?_ (refuse_tidy fd _)) ?_))))
  · exact keeps_bind (updateFile_tidy fd _) fun _ => keeps_pure _
  · exact keeps_bind (updateFile_tidy fd _) fun _ => keeps_pure _
  · refine keeps_bind (keeps_ite htruncate (keeps_pure ())) fun _ => ?_
    exact keeps_bind (updateFile_tidy fd _) fun _ => keeps_pure _

theorem fatOpen_tidy (name : List UInt8) (flags : OpenFlags) (mode : ℕ) (e : ℤ) :
    Keeps Tidy (fatOpen E name flags mode e) := by
  intro s a t h
  obtain ⟨o,u,ho,h⟩ := bind_ok h
  have hsu : Tidy s u := nextFileLoop_tidy _ _ _ _ _ ho
  cases o with
  | none =>
    obtain ⟨-,rfl⟩ := pure_ok h
    exact hsu
  | some fd =>
    obtain ⟨-,rfl⟩ := nextFileLoop_some ho
    obtain ⟨⟨i,e'⟩,v,hv,h⟩ := bind_ok h
    have huv := fatLookupPath_tidy hv ⟨by rw [FatState.setFile_self]; rfl,by rw [FatState.setFile_self]; rfl⟩
    refine IsTrans.trans _ _ _ hsu (IsTrans.trans _ _ _ huv (Keeps.of_ok ?_ h))
    refine keeps_bind (updateFile_tidy fd _) fun _ => keeps_ite (openMissing_tidy E fd _ _) ?_
    exact keeps_ite (refuse_tidy fd _) (keeps_ite (openExisting_tidy hw fd _ _) (refuse_tidy fd _))

theorem heeds_open (name : List UInt8) (flags : OpenFlags) (mode : ℕ) (e : ℤ) :
    Heeds (fatOpen E name flags mode e) (fatOpen E name flags mode e) :=
  heeds_of_tidy (fatOpen_tidy hw name flags mode e)

theorem heeds_free (c : ℕ) : Heeds (fatFreeClusters E c) (fatFreeClusters E c) :=
  heeds_of_tidy (fatFreeClusters_tidy hw c)

omit hw in
theorem heeds_withFd {α : Type} {fd : ℕ} {bad : α} {x y : Fd → FatM α} (h : ∀ fd, Heeds (x fd) (y fd)) :
    Heeds (withFd fd bad x) (withFd fd bad y) := by
  unfold withFd
  split
  · exact h _
  · exact heeds_pure bad

theorem fatRead_heeds (fd n : ℕ) : Heeds (Strict.fatRead E fd n) (fatRead E fd n) :=
  heeds_withFd fun fd => readSlot_heeds hw fd n

theorem fatWrite_heeds (fd : ℕ) (bytes : List UInt8) :
    Heeds (Strict.fatWrite E fd bytes) (fatWrite E fd bytes) :=
  heeds_withFd fun fd => writeSlot_heeds hw fd bytes

theorem fatLseek_heeds (fd : ℕ) (ptr : ℤ) (dir : Whence) :
    Heeds (Strict.fatLseek E fd ptr dir) (fatLseek E fd ptr dir) :=
  heeds_withFd fun fd => seekSlot_heeds hw fd ptr dir

theorem fatClose_heeds (fd : ℕ) : Heeds (Strict.fatClose E fd) (fatClose E fd) :=
  heeds_withFd fun fd => closeSlot_heeds hw fd

/-! ### Listing and removing entries -/

theorem nextDirentLoop_heeds (fd n : ℕ) :
    Heeds (Strict.nextDirentLoop E fd n) (nextDirentLoop E fd n) := by
  induction n with
  | zero => exact heeds_stop _ _
  | succ n ih =>
    refine heeds_bind (fatRead_heeds hw fd 32) fun p => ?_
    refine heeds_ite (heeds_pure _) (heeds_ite (heeds_pure _) (heeds_ite ih ?_))
    exact heeds_bind heeds_fatfs fun g => heeds_pure _

theorem rmdirLoop_heeds (fd n : ℕ) (e : ℤ) : Heeds (Strict.rmdirLoop E fd n e) (rmdirLoop E fd n e) := by
  induction n generalizing e with
  | zero => exact heeds_stop _ _
  | succ n ih =>
    refine heeds_bind (nextDirentLoop_heeds hw fd _) fun p => ?_
    exact heeds_ite (heeds_pure _) (heeds_ite (ih p.2.1) (heeds_pure _))

theorem fatUnlink_heeds (path : List UInt8) (e : ℤ) :
    Heeds (Strict.fatUnlink E path e) (fatUnlink E path e) := by
  refine heeds_bind (heeds_open hw _ _ _ _) fun p => heeds_dite (fun h => ?_) (heeds_pure _)
  refine heeds_bind (fstatSlot_heeds _) fun q => ?_
  rcases q with ⟨failed,e',_ | st⟩
  · exact heeds_pure _
  refine heeds_ite ?_ ?_
  · exact heeds_bind (heeds_update _ _) fun _ => heeds_bind (closeSlot_heeds hw _) fun _ => heeds_pure _
  · exact heeds_bind (fatDelete_heeds hw _) fun _ => heeds_bind (closeSlot_heeds hw _) fun _ => heeds_pure _

theorem fatRmdir_heeds (path : List UInt8) (e : ℤ) :
    Heeds (Strict.fatRmdir E path e) (fatRmdir E path e) := by
  refine heeds_bind (heeds_open hw _ _ _ _) fun p => heeds_dite (fun h => ?_) (heeds_pure _)
  refine heeds_bind (rmdirLoop_heeds hw _ _ _) fun q => heeds_ite ?_ ?_
  · exact heeds_bind (closeSlot_heeds hw _) fun _ => heeds_pure _
  · exact heeds_bind (fatDelete_heeds hw _) fun _ => heeds_bind (closeSlot_heeds hw _) fun _ =>
      heeds_ite (heeds_pure _) (heeds_pure _)

/-! ### `fat_mkdir` -/

theorem seekEmptyLoop_heeds (fd n : ℕ) : Heeds (Strict.seekEmptyLoop E fd n) (seekEmptyLoop E fd n) := by
  induction n with
  | zero => exact heeds_stop _ _
  | succ n ih =>
    exact heeds_bind (fatRead_heeds hw fd 32) fun p =>
      heeds_ite (heeds_pure _) (heeds_ite ih (heeds_pure _))

theorem abandon_heeds (fd c : ℕ) : Heeds (Strict.abandon E fd c) (abandon E fd c) :=
  heeds_bind (fatClose_heeds hw fd) fun _ => heeds_bind (heeds_free hw c) fun _ => heeds_pure _

theorem writeZeroEntries_heeds (fd n : ℕ) (e : ℤ) :
    Heeds (Strict.writeZeroEntries E fd n e) (writeZeroEntries E fd n e) := by
  induction n generalizing e with
  | zero => exact heeds_pure _
  | succ n ih =>
    exact heeds_bind (fatWrite_heeds hw fd _) fun p => heeds_ite (heeds_pure _) (ih p.2)

omit hw in
theorem stampedDir_heeds (filename : Fin 8 → UInt8) (c : ℕ) :
    Heeds (stampedDir E filename c) (stampedDir E filename c) :=
  heeds_of_tidy (keeps_bind (time_tidy E) fun _ => keeps_bind (time_tidy E) fun _ =>
    keeps_bind (time_tidy E) fun _ => keeps_bind (time_tidy E) fun _ => keeps_bind (time_tidy E) fun _ =>
    keeps_bind (time_tidy E) fun _ => keeps_pure _)

theorem mkdirFill_heeds (path : List UInt8) (c p : ℕ) (e : ℤ) :
    Heeds (Strict.mkdirFill E path c p e) (mkdirFill E path c p e) := by
  refine heeds_bind (heeds_open hw _ _ _ _) fun r => heeds_ite (heeds_pure _) ?_
  refine heeds_bind (stampedDir_heeds _ _) fun d => ?_
  refine heeds_bind (fatWrite_heeds hw _ _) fun r₁ => heeds_ite (heeds_pure _) ?_
  refine heeds_bind (fatWrite_heeds hw _ _) fun r₂ => heeds_ite (heeds_pure _) ?_
  refine heeds_bind heeds_fatfs fun g => heeds_bind (writeZeroEntries_heeds hw _ _ _) fun r₃ => ?_
  refine heeds_ite (heeds_pure _) (heeds_bind (fatClose_heeds hw _) fun r₄ => ?_)
  exact heeds_ite (heeds_pure _) (heeds_pure _)

theorem mkdirEnter_heeds (path filename : List UInt8) (fd c p : ℕ) (e : ℤ) :
    Heeds (Strict.mkdirEnter E path filename fd c p e) (mkdirEnter E path filename fd c p e) := by
  refine heeds_bind (fatLseek_heeds hw fd _ _) fun r => heeds_ite (abandon_heeds hw fd c) ?_
  refine heeds_bind (heeds_of_tidy (liftStop_keeps _)) fun o => ?_
  cases o with
  | none =>
    exact heeds_bind (heeds_free hw c) fun _ => heeds_bind (fatClose_heeds hw fd) fun _ => heeds_pure _
  | some name =>
    refine heeds_bind (stampedDir_heeds _ _) fun d => ?_
    refine heeds_bind (fatWrite_heeds hw _ _) fun r₁ => heeds_ite (heeds_pure _) ?_
    refine heeds_bind (fatWrite_heeds hw _ _) fun r₂ => heeds_ite (heeds_pure _) ?_
    refine heeds_bind (fatClose_heeds hw _) fun r₃ => ?_
    exact heeds_ite (heeds_pure _) (mkdirFill_heeds hw _ _ _ _)

theorem fatMkdir_heeds (path : List UInt8) : Heeds (Strict.fatMkdir E path) (fatMkdir E path) := by
  refine heeds_ite (heeds_pure _) (heeds_ite (heeds_pure _) ?_)
  refine heeds_bind (heeds_of_tidy (liftStop_keeps _)) fun q => ?_
  refine heeds_bind (heeds_freeCluster hw) fun c => heeds_ite (heeds_pure _) ?_
  refine heeds_bind (heeds_open hw _ _ _ _) fun r => heeds_dite (fun h => ?_) ?_
  · refine heeds_bind (heeds_file _) fun f => heeds_bind (seekEmptyLoop_heeds hw _ _) fun found => ?_
    exact heeds_ite (abandon_heeds hw _ _) (mkdirEnter_heeds hw _ _ _ _ _ _)
  · exact heeds_bind (heeds_free hw c) fun _ => heeds_pure _

/-! ### Programs -/

theorem exec_heeds (c : Call) : Heeds (Strict.exec E c) (c.exec E) := by
  cases c with
  | openPath path flags mode e => exact heeds_bind (heeds_open hw _ _ _ _) fun _ => heeds_pure _
  | read fd n => exact heeds_bind (fatRead_heeds hw fd n) fun _ => heeds_pure _
  | write fd bytes => exact heeds_bind (fatWrite_heeds hw fd bytes) fun _ => heeds_pure _
  | lseek fd ptr dir => exact heeds_bind (fatLseek_heeds hw fd ptr dir) fun _ => heeds_pure _
  | fstat fd => exact heeds_bind (heeds_withFd fstatSlot_heeds) fun _ => heeds_pure _
  | getNextDirent fd => exact heeds_bind (nextDirentLoop_heeds hw fd _) fun _ => heeds_pure _
  | close fd => exact heeds_bind (fatClose_heeds hw fd) fun _ => heeds_pure _
  | unlink path e => exact heeds_bind (fatUnlink_heeds hw path e) fun _ => heeds_pure _
  | rmdir path e => exact heeds_bind (fatRmdir_heeds hw path e) fun _ => heeds_pure _
  | mkdir path => exact heeds_bind (fatMkdir_heeds hw path) fun _ => heeds_pure _

end Calls

/-- From this state the call discards no failure: with the strict functions it returns, too. -/
def Call.Attentive (E : Env) (s : FatState) (c : Call) : Prop :=
  ∃ r t, Strict.exec E c s = .ok (r,t)

/-- A call that returns and discards no failure. -/
def AttentiveStep (E : Env) (s : FatState) (c : Call) (t : FatState) : Prop :=
  c.Attentive E s ∧ Step E s c t

theorem AttentiveStep.tidy {E : Env} (hw : ∀ n, E.writeFails n = false) {s t : FatState} {c : Call}
    (h : AttentiveStep E s c t) : Tidy s t := by
  obtain ⟨⟨r,u,hu⟩,r',hr⟩ := h
  have hheeds := exec_heeds hw c
  have hsame := (hheeds.within s r u hu).symm.trans hr
  simp only [Except.ok.injEq,Prod.mk.injEq] at hsame
  exact hsame.2 ▸ hheeds.tidy s r u hu

/-- The small volume with the files `/AB.TXT` in cluster 2 and `/CD.TXT` in cluster 3. -/
def twoFiles : ℕ → Sector
  | 1 => Sector.ofBytes [0xF8,0xFF,0xFF,0xFF,0xFF,0xFF,0xFF,0xFF]
  | 2 => Sector.ofBytes [0x41,0x42,0x20,0x20,0x20,0x20,0x20,0x20,0x54,0x58,0x54,0x20,
      0,0,0,0,0,0,0,0,0,0,0,0,0,0,2,0,5,0,0,0,
      0x43,0x44,0x20,0x20,0x20,0x20,0x20,0x20,0x54,0x58,0x54,0x20,
      0,0,0,0,0,0,0,0,0,0,0,0,0,0,3,0,5,0,0,0]
  | _ => Sector.zero

/-- Surroundings in which the read that is question `n` fails. -/
def Env.failingRead (n : ℕ) : Env := { Env.calm (fun _ => 90) 20 with readFails := fun k => k == n }

/-- The sector that `fat_delete` wrote last, after `fat_free_clusters` had written another. -/
def deletedData : List Event → Option Sector
  | [.unlock,.write .fatFreeClusters 1 _,.lock,.write .fatDelete 2 data] => some data
  | _ => none

theorem deletedData_eq {l : List Event} {data : Sector} (h : deletedData l = some data) :
    ∃ late, l = late ++ [.write .fatDelete 2 data] := by
  unfold deletedData at h
  split at h
  · obtain rfl := Option.some.inj h
    exact ⟨[_,_,_],rfl⟩
  · cases h

end Gristle
