import Gristle.LookupPath
import Gristle.Opened

/-! `fat_open`: from what the lookup reports to the descriptor that is handed out. -/
namespace Gristle
open Prog

/-- `fd` is the slot of the table the next file gets. -/
def FatState.FreeSlot (s : FatState) (fd : Fd) : Prop :=
  (s.fileNum fd).flags.open_ = false ∧ ∀ j < fd, (s.fileNum j).flags.open_ = true

instance (s : FatState) (fd : Fd) : Decidable (s.FreeSlot fd) := inferInstanceAs (Decidable (_ ∧ _))

/-- The table once slot `fd` is taken. -/
def FatState.taken (s : FatState) (fd : Fd) : FatState :=
  s.setFile fd { s.fileNum fd with flags := .justOpen }

/-- The descriptor with the access bits of a call of `fat_open`. -/
def FileS.granted (flags : OpenFlags) (f : FileS) : FileS := { f with flags := f.flags.access flags }

theorem nextFileLoop_free {s : FatState} {fd : Fd} (h : s.FreeSlot fd) {n j : ℕ} (hj : j ≤ fd.val)
    (hn : fd.val < j + n) : nextFileLoop n j s = .ok (some fd,s.taken fd) := by
  induction n generalizing j with
  | zero => omega
  | succ n ih =>
    have hlt : j < maxOpenFiles := Nat.lt_of_le_of_lt hj fd.isLt
    rw [nextFileLoop,dif_pos hlt,bind_of_ok rfl,run_ite]
    rcases Nat.lt_or_eq_of_le hj with hj | rfl
    · rw [if_pos (h.2 ⟨j,hlt⟩ hj)]
      exact ih hj (by omega)
    · rw [if_neg (by rw [Bool.not_eq_true]; exact h.1)]
      rfl

theorem fatGetNextFile_free {s : FatState} {fd : Fd} (h : s.FreeSlot fd) :
    fatGetNextFile s = .ok (some fd,s.taken fd) :=
  nextFileLoop_free h (Nat.zero_le _) (by have := fd.isLt; omega)

/-! ### The flags of the slot during a lookup -/

/-- A slot that is only marked as open stays so. -/
def Lent (fd : Fd) (s t : FatState) : Prop :=
  (s.fileNum fd).flags = .justOpen → (t.fileNum fd).flags = .justOpen

instance (fd : Fd) : Std.Refl (Lent fd) := ⟨fun _ h => h⟩

instance (fd : Fd) : IsTrans FatState (Lent fd) where
  trans _ _ _ h h' := fun hq => h' (h hq)

section Lent
variable (E : Env) (fd : Fd)

theorem onDevice_lent {α : Type} (x : Prog Device α) : Keeps (Lent fd) (onDevice x) := by
  intro s a t h
  obtain ⟨d,-,rfl⟩ := onDevice_ok h
  exact fun hq => hq

theorem updateFile_lent {u : FileS → FileS} (hu : ∀ f, (u f).flags = f.flags ∨ (u f).flags = .justOpen) :
    Keeps (Lent fd) (updateFile fd u) := by
  refine keeps_modify fun s hq => ?_
  rw [FatState.setFile_self]
  exact (hu _).elim (fun h => h.trans hq) id

theorem lent_file {α : Type} {k : FileS → FatM α}
    (h : ∀ f : FileS, f.flags = .justOpen → Keeps (Lent fd) (k f)) : Keeps (Lent fd) (file fd >>= k) := by
  intro s a t hk hq
  exact h _ hq s a t hk hq

theorem readBuffer_lent (b : ℕ) : Keeps (Lent fd) (readBuffer E fd b) := by
  refine keeps_bind (onDevice_lent fd _) fun o => ?_
  cases o with
  | none => exact keeps_pure true
  | some d => exact keeps_bind (updateFile_lent fd fun _ => .inl rfl) fun _ => keeps_pure false

theorem fatSelectCluster_lent (c : ℕ) : Keeps (Lent fd) (fatSelectCluster E fd c) :=
  keeps_bind keeps_fatfs fun g =>
    keeps_bind (updateFile_lent fd fun f => .inl (FileS.flags_select g c f)) fun _ =>
      keeps_bind (keeps_file fd) fun _ => readBuffer_lent E fd _

theorem fatFlushWith_lent (ffi : Fd → FatM ℤ) : Keeps (Lent fd) (fatFlushWith ffi E fd) := by
  refine lent_file fd fun f hq => ?_
  simp only [hq]
  exact keeps_pure 0

theorem fatNextSectorWith_lent (ffi : Fd → FatM ℤ) : Keeps (Lent fd) (fatNextSectorWith ffi E fd) := by
  refine keeps_bind (fatFlushWith_lent E fd _) fun _ => keeps_ite (keeps_pure _) ?_
  refine keeps_bind (keeps_file fd) fun f => keeps_ite ?_ ?_
  · exact keeps_bind (updateFile_lent fd fun _ => .inl rfl) fun _ =>
      keeps_bind (keeps_file fd) fun _ => readBuffer_lent E fd _
  · have hnext : Keeps (Lent fd) (fatNextClusterWith ffi E fd) := by
      refine keeps_bind (fatFlushWith_lent E fd _) fun _ => keeps_ite (keeps_pure _) ?_
      refine keeps_bind keeps_fatfs fun g => keeps_bind (keeps_file fd) fun f => keeps_ite ?_ ?_
      · exact keeps_bind (updateFile_lent fd fun _ => .inl rfl) fun _ => keeps_pure _
      · refine keeps_bind (readBuffer_lent E fd _) fun _ => keeps_ite (keeps_pure _) ?_
        refine lent_file fd fun f hq => keeps_ite ?_ (keeps_ite ?_ (keeps_pure _))
        · exact keeps_bind (updateFile_lent fd fun _ => .inl rfl) fun _ => keeps_pure _
        · simp only [hq]
          exact keeps_bind (updateFile_lent fd fun _ => .inl rfl) fun _ => keeps_pure _
    refine keeps_bind hnext fun p => keeps_ite ?_ (keeps_pure _)
    exact keeps_bind (updateFile_lent fd fun _ => .inl rfl) fun _ => fatSelectCluster_lent E fd _

theorem scanLoop_lent (name : DosName) (n : ℕ) : Keeps (Lent fd) (scanLoop E fd name n) := by
  induction n with
  | zero => exact keeps_stop .fuel
  | succ n ih =>
    refine keeps_bind (keeps_file fd) fun f => ?_
    cases searchSlots name.byte f.buffer 16 0 with
    | last => exact keeps_pure none
    | found i => exact keeps_pure (some i)
    | absent =>
      exact keeps_bind (fatNextSectorWith_lent E fd _) fun _ => keeps_ite (keeps_pure none) ih

theorem lookupLoop_lent (elements : List (List UInt8)) (name : DosName) (e : ℤ) :
    Keeps (Lent fd) (lookupLoop E fd elements name e) := by
  induction elements generalizing name e with
  | nil => exact keeps_pure _
  | cons element rest ih =>
    refine keeps_bind (liftStop_keeps _) fun o => ?_
    cases o with
    | none => exact keeps_pure _
    | some name =>
      refine keeps_bind (scanLoop_lent E fd name _) fun o => ?_
      cases o with
      | none => exact keeps_bind (updateFile_lent fd fun _ => .inl rfl) fun _ => keeps_pure _
      | some i =>
        refine keeps_bind (keeps_file fd) fun f => keeps_bind keeps_fatfs fun g => ?_
        refine keeps_ite ?_ (keeps_ite ?_ (keeps_pure _))
        · exact keeps_bind (updateFile_lent fd fun _ => .inr rfl) fun _ => keeps_bind (keeps_file fd) fun _ =>
            keeps_bind (fatSelectCluster_lent E fd _) fun _ => keeps_pure _
        · exact keeps_bind (updateFile_lent fd fun _ => .inl rfl) fun _ =>
            keeps_bind (fatSelectCluster_lent E fd _) fun _ => ih name e

theorem fatLookupPath_lent (path : List UInt8) (e : ℤ) : Keeps (Lent fd) (fatLookupPath E fd path e) := by
  refine keeps_ite (keeps_pure _) (keeps_bind keeps_fatfs fun g => ?_)
  refine keeps_bind (onDevice_lent fd _) fun _ => keeps_bind (fatSelectCluster_lent E fd _) fun _ => ?_
  cases (pathElements path).take 20 with
  | nil =>
    exact keeps_bind (updateFile_lent fd fun _ => .inl rfl) fun _ =>
      keeps_bind (fatSelectCluster_lent E fd _) fun _ => keeps_pure _
  | cons element rest =>
    exact keeps_bind (updateFile_lent fd fun _ => .inl rfl) fun _ => lookupLoop_lent E fd _ _ e

end Lent

/-! ### What `fat_open` does with the result of its lookup -/

section Lookup
variable {E : Env} {name : List UInt8} {flags : OpenFlags} {mode : ℕ} {e : ℤ} {s u : FatState} {fd : Fd}
  (hslot : s.FreeSlot fd)
include hslot

theorem fatOpen_lookup {p : ℤ × ℤ} (hlookup : fatLookupPath E fd name e (s.taken fd) = .ok (p,u)) :
    fatOpen E name flags mode e s =
      (if p.1 = -1 ∧ p.2 = eNoent then openMissing E fd flags mode
        else if p.1 = -1 ∧ p.2 = badPath then refuse fd eNoent
        else if p.1 = 0 then openExisting E fd flags p.2
        else refuse fd p.2) (u.setFile fd ((u.fileNum fd).granted flags)) := by
  rw [fatOpen,bind_of_ok (fatGetNextFile_free hslot)]
  dsimp only
  rw [bind_of_ok hlookup]
  rfl

omit hslot in
/-- Opening for reading writes no block. -/
theorem fatOpen_sameMedium (hflags : flags.wronly = false ∧ flags.rdwr = false) (hcreat : flags.creat = false)
    {p : ℤ × ℤ} {t : FatState} (h : fatOpen E name flags mode e s = .ok (p,t)) : SameMedium s.dev t.dev := by
  have hupdate {r : Fd} {f : FileS → FileS} {q : ℤ × ℤ} {x : FatState}
      (h : (updateFile r f >>= fun _ => pure q) x = .ok (p,t)) : t.dev = x.dev := by
    obtain ⟨a,y,hy,h⟩ := bind_ok h
    rw [(pure_ok h).2,updateFile_ok hy]
    rfl
  obtain ⟨o,u,ho,h⟩ := bind_ok h
  cases o with
  | none =>
    obtain ⟨-,rfl⟩ := pure_ok h
    rw [nextFileLoop_none ho]
    exact ⟨rfl,rfl⟩
  | some r =>
    obtain ⟨-,rfl⟩ := nextFileLoop_some ho
    obtain ⟨⟨i,e₁⟩,v,hv,h⟩ := bind_ok h
    have hmedium := (fatLookupPath_idle E r name e _ _ _ hv (by rw [FatState.setFile_self]; exact ⟨rfl,rfl⟩)).2
    obtain ⟨a,w,hw,h⟩ := bind_ok h
    obtain rfl := updateFile_ok hw
    have hdev : t.dev = v.dev := by
      simp only [run_ite] at h
      split at h
      · rw [openMissing,bind_of_ok rfl,run_ite,if_pos (by simp [hcreat])] at h
        exact (hupdate h).trans rfl
      split at h
      · exact (hupdate h).trans rfl
      split at h
      · rw [openExisting,bind_of_ok rfl,bind_of_ok rfl] at h
        simp only [run_ite] at h
        split at h
        · exact (hupdate h).trans rfl
        rw [if_pos (by simp [hflags])] at h
        exact (hupdate h).trans rfl
      · exact (hupdate h).trans rfl
    rw [hdev]
    exact hmedium

omit hslot in
/-- A descriptor opened without write access is the one the lookup leaves, but for its flags. -/
theorem fatOpen_reading (hflags : flags.wronly = false ∧ flags.rdwr = false) (hcreat : flags.creat = false)
    {e' : ℤ} {t : FatState} (h : fatOpen E name flags mode e s = .ok (((fd.val : ℤ),e'),t)) :
    ∃ e₁ u, fatLookupPath E fd name e (s.taken fd) = .ok ((0,e₁),u) ∧ After fd u t u.dev.blocks
      { u.fileNum fd with flags := (u.fileNum fd).flags.access flags, fileSector := 0 } := by
  have hne : (fd.val : ℤ) ≠ -1 := by omega
  obtain ⟨o,u,ho,h₁⟩ := bind_ok h
  cases o with
  | none => exact absurd (congrArg Prod.fst (pure_ok h₁).1) hne
  | some r =>
    obtain ⟨⟨i,e₁⟩,v,hv,h₂⟩ := bind_ok h₁
    obtain ⟨a,w,hw,h₃⟩ := bind_ok h₂
    obtain ⟨-,rfl⟩ := nextFileLoop_some ho
    have hafter := updateFile_result hw
    simp only [run_ite] at h₃
    split at h₃
    · rw [openMissing,bind_of_ok rfl,run_ite,if_pos (by simp [hcreat])] at h₃
      exact absurd (refuse_result h₃) hne
    split at h₃
    · exact absurd (refuse_result h₃) hne
    split at h₃
    · obtain rfl : fd = r := Fin.ext (by have := (openExisting_result h₃).resolve_left hne; dsimp only at this; omega)
      have hx := openExisting_reading h₃ hne hflags
      rw [hafter.blocks,hafter.file] at hx
      rw [‹i = 0›] at hv
      exact ⟨e₁,v,hv,hafter.trans hx⟩
    · exact absurd (refuse_result h₃) hne

/-- A file that is not there is created in the table only. -/
theorem fatOpen_missing (hcreat : flags.creat = true) (hro : s.fatfs.readOnly = 0)
    (hlookup : fatLookupPath E fd name e (s.taken fd) = .ok ((-1,eNoent),u)) :
    (fatOpen E name flags mode e).Returns s fun r t => r = ((fd.val : ℤ),0) ∧
      (u.fileNum fd).flags = .justOpen ∧ ∃ now,
        After fd s t s.dev.blocks (((u.fileNum fd).granted flags).create mode now) := by
  have htaken : After fd s (s.taken fd) s.dev.blocks { s.fileNum fd with flags := .justOpen } :=
    updateFile_after fd (fun f => { f with flags := .justOpen }) s
  have hquiet : ((s.taken fd).fileNum fd).Quiet := by
    rw [htaken.file]
    exact ⟨rfl,rfl⟩
  have hlook : After fd (s.taken fd) u s.dev.blocks (u.fileNum fd) :=
    ⟨fatLookupPath_sameBut E fd name e _ _ _ hlookup,
      (fatLookupPath_idle E fd name e _ _ _ hlookup hquiet).2.blocks,rfl⟩
  have hsu := htaken.trans hlook
  have hlent : (u.fileNum fd).flags = .justOpen :=
    fatLookupPath_lent E fd name e _ _ _ hlookup (by rw [htaken.file])
  have hfatfs : u.fatfs = s.fatfs := hsu.fatfs
  rw [Returns,fatOpen_lookup hslot hlookup,if_pos ⟨rfl,rfl⟩]
  change (openMissing E fd flags mode).Returns _ _
  refine returns_fatfs (returns_ite (by simp [hcreat]) fun _ => ?_)
  refine returns_ite (fun h => absurd (hfatfs ▸ hro) h) fun _ => ?_
  have hgrant := updateFile_after fd (FileS.granted flags) u
  refine (time_returns E _).bind fun now t ht => ?_
  have hut := hgrant.trans (ht.after fd)
  rw [FatState.setFile_dev,FatState.setFile_self] at hut
  refine (updateFile_returns fd _ t).bind fun _ v hv => returns_pure ⟨rfl,hlent,now,?_⟩
  rw [hut.blocks,hut.file,hsu.blocks] at hv
  exact hsu.trans (hut.trans hv)

end Lookup

end Gristle
