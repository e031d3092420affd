import Gristle.Open
import Gristle.OpenSlots

/-! The table of descriptors across `fat_open`: the slot it takes gets the access the caller asks for or
is given back, whatever the lookup reports. -/
namespace Gristle
open Prog

/-- An open slot with the access these flags ask for. -/
structure Flags.Asked (flags : OpenFlags) (f : Flags) : Prop where
  open_ : f.open_ = true
  read : f.read = true ↔ flags.rdwr = true ∨ flags.wronly = false
  write : f.write = true ↔ flags.rdwr = true ∨ flags.wronly = true
  append : f.append = true ↔ flags.append = true

theorem Flags.access_asked (flags : OpenFlags) : (Flags.justOpen.access flags).Asked flags := by
  constructor
  case open_ => rfl
  all_goals simp [access,justOpen]

/-- A slot keeps the access that was asked for. -/
def Grants (flags : OpenFlags) (fd : Fd) (s t : FatState) : Prop :=
  (s.fileNum fd).flags.Asked flags → (t.fileNum fd).flags.Asked flags

instance (flags : OpenFlags) (fd : Fd) : Std.Refl (Grants flags fd) := ⟨fun _ h => h⟩

instance (flags : OpenFlags) (fd : Fd) : IsTrans FatState (Grants flags fd) where
  trans _ _ _ h h' := fun hs => h' (h hs)

section Grants
variable {E : Env} {flags : OpenFlags} {fd : Fd} {s t : FatState} {p : ℤ × ℤ}

theorem updateFile_grants {u : FileS → FileS} (hu : ∀ f, (u f).flags = { f.flags with fsDirty := (u f).flags.fsDirty }) :
    Keeps (Grants flags fd) (updateFile fd u) := by
  refine keeps_modify fun s h => ?_
  rw [FatState.setFile_self,hu]
  exact ⟨h.open_,h.read,h.write,h.append⟩

theorem sameTable_grants {α : Type} {x : FatM α} (h : Keeps SameTable x) : Keeps (Grants flags fd) x :=
  h.mono fun _ _ hst hs => by rwa [hst.fileNum]

theorem truncateFile_grants : Keeps (Grants flags fd) (truncateFile E fd) := by
  have htime : Keeps (Grants flags fd) (time E) := sameTable_grants (time_sameTable E)
  refine keeps_bind (keeps_file fd) fun f => ?_
  refine keeps_bind (sameTable_grants (fatFreeClusters_sameTable E _)) fun _ => ?_
  refine keeps_bind (updateFile_grants fun _ => rfl) fun _ => keeps_bind htime fun _ => ?_
  refine keeps_bind (updateFile_grants fun _ => rfl) fun _ => keeps_bind htime fun _ => ?_
  exact updateFile_grants fun _ => rfl

/-- The slot was given back with the result -1, or has the access asked for. -/
def Answered (flags : OpenFlags) (fd : Fd) (t : FatState) (p : ℤ × ℤ) : Prop :=
  p.1 = -1 ∧ (t.fileNum fd).flags.open_ = false ∨ p.1 = fd.val ∧ (t.fileNum fd).flags.Asked flags

theorem refuse_answered {e : ℤ} (h : refuse fd e s = .ok (p,t)) : Answered flags fd t p := by
  obtain ⟨a,u,hu,h⟩ := bind_ok h
  obtain ⟨rfl,rfl⟩ := pure_ok h
  refine .inl ⟨rfl,?_⟩
  rw [(updateFile_result hu).file]
  rfl

theorem succeed_answered {x : FatM Unit} (hx : Keeps (Grants flags fd) x) {e : ℤ}
    (hs : (s.fileNum fd).flags.Asked flags) (h : (x >>= fun _ => pure ((fd.val : ℤ),e)) s = .ok (p,t)) :
    Answered flags fd t p := by
  obtain ⟨a,u,hu,h⟩ := bind_ok h
  obtain ⟨rfl,rfl⟩ := pure_ok h
  exact .inr ⟨rfl,hx.of_ok hu hs⟩

theorem openMissing_answered {mode : ℕ} (hs : (s.fileNum fd).flags.Asked flags)
    (h : openMissing E fd flags mode s = .ok (p,t)) : Answered flags fd t p := by
  rw [openMissing,bind_of_ok rfl] at h
  simp only [run_ite] at h
  split at h
  · exact refuse_answered h
  split at h
  · exact refuse_answered h
  · obtain ⟨now,u,hu,h⟩ := bind_ok h
    have hcreate : Keeps (Grants flags fd) (updateFile fd (FileS.create mode now)) :=
      updateFile_grants fun _ => rfl
    exact succeed_answered hcreate ((sameTable_grants (time_sameTable E)).of_ok hu hs) h

theorem openExisting_answered {e : ℤ} (hs : (s.fileNum fd).flags.Asked flags)
    (h : openExisting E fd flags e s = .ok (p,t)) : Answered flags fd t p := by
  have hrewind : Keeps (Grants flags fd) (updateFile fd fun f => { f with fileSector := 0 }) :=
    updateFile_grants fun _ => rfl
  rw [openExisting,bind_of_ok rfl,bind_of_ok rfl] at h
  simp only [run_ite] at h
  split at h
  · exact refuse_answered h
  split at h
  · exact succeed_answered hrewind hs h
  split at h
  · exact refuse_answered h
  split at h
  · exact refuse_answered h
  split at h
  · split at h
    · exact succeed_answered hrewind hs h
    · exact refuse_answered h
  · obtain ⟨a,u,hu,h⟩ := bind_ok h
    refine succeed_answered hrewind ?_ h
    exact (keeps_ite truncateFile_grants (keeps_pure ())).of_ok hu hs

end Grants

/-- What `fat_open` may do to the table: open a free slot as asked and return its number, or return -1
with the open slots as before. The other slots stay as they are. -/
inductive OpenExact (flags : OpenFlags) (s t : FatState) (result : ℤ) : Prop
  | opened (fd : Fd) : result = fd.val → (s.fileNum fd).flags.open_ = false →
      (t.fileNum fd).flags.Asked flags → (∀ j ≠ fd, t.fileNum j = s.fileNum j) → OpenExact flags s t result
  | refused (fd : Fd) : result = -1 → SameOpen s t → (s.fileNum fd).flags.open_ = false →
      (∀ j ≠ fd, t.fileNum j = s.fileNum j) → OpenExact flags s t result
  | noSlot : result = -1 → (∀ j, (s.fileNum j).flags.open_ = true) → t.fileNum = s.fileNum →
      OpenExact flags s t result

theorem nextFileLoop_taken {n j : ℕ} {s t : FatState} (h : nextFileLoop n j s = .ok (none,t)) :
    ∀ k : Fd, j ≤ k.val → k.val < j + n → (s.fileNum k).flags.open_ = true := by
  induction n generalizing j with
  | zero =>
    intro k hjk hk
    omega
  | succ n ih =>
    intro k hjk hk
    have hlt : j < maxOpenFiles := Nat.lt_of_le_of_lt hjk k.isLt
    rw [nextFileLoop,dif_pos hlt,bind_of_ok rfl,run_ite] at h
    split at h
    · rcases Nat.lt_or_eq_of_le hjk with hjk | rfl
      · exact ih h k hjk (by omega)
      · assumption
    · obtain ⟨a,u,-,h⟩ := bind_ok h
      exact absurd (pure_ok h).1 (by simp)

section Open
variable {E : Env} {name : List UInt8} {flags : OpenFlags} {mode : ℕ} {e : ℤ} {s t : FatState} {p : ℤ × ℤ}

/-- `fat_open` is exact on the table, whatever it finds and whichever transfers fail. -/
theorem fatOpen_exact (h : fatOpen E name flags mode e s = .ok (p,t)) : OpenExact flags s t p.1 := by
  obtain ⟨o,u,ho,hrest⟩ := bind_ok h
  cases o with
  | none =>
    obtain ⟨rfl,rfl⟩ := pure_ok hrest
    have hopen := nextFileLoop_taken ho
    exact .noSlot rfl (fun j => hopen j (Nat.zero_le _) (by have := j.isLt; omega)) (by rw [nextFileLoop_none ho])
  | some fd =>
    obtain ⟨hclosed,rfl⟩ := nextFileLoop_some ho
    have htaken : SameBut fd s (s.taken fd) := (updateFile_after fd (fun f => { f with flags := .justOpen }) s).but
    obtain ⟨q,v,hv,hrest⟩ := bind_ok hrest
    obtain ⟨a,w,hw,hrest⟩ := bind_ok hrest
    have hlent : (v.fileNum fd).flags = .justOpen := by
      refine fatLookupPath_lent E fd name e _ _ _ hv ?_
      rw [FatState.setFile_self]
    have hasked : (w.fileNum fd).flags.Asked flags := by
      rw [(updateFile_result hw).file,hlent]
      exact Flags.access_asked flags
    have hlast : SameBut fd w t ∧ Answered flags fd t p := by
      simp only [run_ite] at hrest
      split at hrest
      · exact ⟨openMissing_sameBut E fd _ _ _ _ _ hrest,openMissing_answered hasked hrest⟩
      split at hrest
      · exact ⟨refuse_sameBut fd _ _ _ _ hrest,refuse_answered hrest⟩
      split at hrest
      · exact ⟨openExisting_sameBut E fd _ _ _ _ _ hrest,openExisting_answered hasked hrest⟩
      · exact ⟨refuse_sameBut fd _ _ _ _ hrest,refuse_answered hrest⟩
    have hbut : SameBut fd s t := IsTrans.trans _ _ _ htaken (IsTrans.trans _ _ _
      (fatLookupPath_sameBut E fd name e _ _ _ hv) (IsTrans.trans _ _ _ (updateFile_result hw).but hlast.1))
    rcases hlast.2 with ⟨hresult,hfree⟩ | ⟨hresult,hgranted⟩
    · exact .refused fd hresult ((hbut.sameOpen_iff hclosed).2 hfree) hclosed hbut.others
    · exact .opened fd hresult hclosed hgranted hbut.others

end Open

/-- The file of a small volume is opened for reading in slot 0. -/
theorem fatOpen_exact_oneFile : ∃ p t, fatOpen (.calm (fun _ => 0) 8) oneFilePath oRdonly 0 0
    (.mounted smallFat16 300 oneFile) = .ok (p,t) ∧ OpenExact oRdonly (.mounted smallFat16 300 oneFile) t p.1 := by
  have hrun : Prog.test (fatOpen (.calm (fun _ => 0) 8) oneFilePath oRdonly 0 0)
      (.mounted smallFat16 300 oneFile) (fun p _ => decide (p.1 = 0)) = true := by decide +kernel
  obtain ⟨p,t,hp,-⟩ := ok_of_test hrun
  exact ⟨p,t,hp,fatOpen_exact hp⟩

end Gristle
