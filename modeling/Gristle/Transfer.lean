import Gristle.Frame

/-! Block transfers in surroundings without faults: every block of the device can be read and
written, so the basic programs return and their results are known. -/
namespace Gristle
open Prog

/-- Slot `fd` alone may have changed; the medium is now `B` and the descriptor `f`. -/
structure After (fd : Fd) (s t : FatState) (B : ℕ → Sector) (f : FileS) : Prop where
  but : SameBut fd s t
  blocks : t.dev.blocks = B
  file : t.fileNum fd = f

/-- The table of open files is the same; the medium is now `B`. -/
structure AfterMedium (s t : FatState) (B : ℕ → Sector) : Prop where
  table : SameTable s t
  blocks : t.dev.blocks = B

namespace After
variable {fd : Fd} {s t u : FatState} {B C : ℕ → Sector} {f f' : FileS}

theorem refl (s : FatState) : After fd s s s.dev.blocks (s.fileNum fd) := ⟨Std.Refl.refl s,rfl,rfl⟩

theorem trans (h : After fd s t B f) (h' : After fd t u C f') : After fd s u C f' :=
  ⟨IsTrans.trans _ _ _ h.but h'.but,h'.blocks,h'.file⟩

theorem self (h : After fd s t B f) : After fd s t B (t.fileNum fd) := ⟨h.but,h.blocks,rfl⟩

theorem fatfs (h : After fd s t B f) : t.fatfs = s.fatfs := h.but.fatfs

theorem size (h : After fd s t B f) : t.dev.size = s.dev.size := h.but.size

end After

theorem AfterMedium.refl (s : FatState) : AfterMedium s s s.dev.blocks := ⟨Std.Refl.refl s,rfl⟩

theorem AfterMedium.trans {s t u : FatState} {B C : ℕ → Sector} (h : AfterMedium s t B)
    (h' : AfterMedium t u C) : AfterMedium s u C :=
  ⟨IsTrans.trans _ _ _ h.table h'.table,h'.blocks⟩

theorem AfterMedium.after {s t : FatState} {B : ℕ → Sector} (h : AfterMedium s t B) (fd : Fd) :
    After fd s t B (s.fileNum fd) :=
  ⟨h.table.sameBut fd,h.blocks,congrFun h.table.fileNum fd⟩

/-! ### The programs that read the state -/

theorem returns_file {α : Type} {fd : Fd} {s : FatState} {x : FileS → FatM α} {Q : α → FatState → Prop}
    (h : (x (s.fileNum fd)).Returns s Q) : (file fd >>= x).Returns s Q := returns_bind_of_ok rfl h

theorem returns_fatfs {α : Type} {s : FatState} {x : FatInfo → FatM α} {Q : α → FatState → Prop}
    (h : (x s.fatfs).Returns s Q) : (fatfs >>= x).Returns s Q := returns_bind_of_ok rfl h

theorem returns_sysbuf {α : Type} {s : FatState} {x : Sector → FatM α} {Q : α → FatState → Prop}
    (h : (x s.sysbuf).Returns s Q) : (sysbuf >>= x).Returns s Q := returns_bind_of_ok rfl h

theorem updateFile_after (fd : Fd) (u : FileS → FileS) (s : FatState) :
    After fd s (s.setFile fd (u (s.fileNum fd))) s.dev.blocks (u (s.fileNum fd)) :=
  ⟨updateFile_sameBut fd u s () _ rfl,rfl,s.setFile_self fd _⟩

theorem updateFile_returns (fd : Fd) (u : FileS → FileS) (s : FatState) :
    (updateFile fd u).Returns s fun _ t => After fd s t s.dev.blocks (u (s.fileNum fd)) :=
  returns_modify (updateFile_after fd u s)

theorem onDevice_returns {α : Type} {x : Prog Device α} {s : FatState} {Q : α → Device → Prop}
    (h : x.Returns s.dev Q) :
    (onDevice x).Returns s fun a t => Q a t.dev ∧ t = { s with dev := t.dev } := by
  obtain ⟨a,d,hd,hq⟩ := h
  refine ⟨a,{ s with dev := d },?_,hq,rfl⟩
  rw [onDevice,zoom,hd]

theorem time_returns (E : Env) (s : FatState) :
    (time E).Returns s fun _ t => AfterMedium s t s.dev.blocks := by
  have h : (Device.time E).Returns s.dev fun _ d => d.blocks = s.dev.blocks := ⟨_,_,rfl,rfl⟩
  exact ((onDevice_returns h).keeps (time_sameTable E)).mono fun _ _ h => ⟨h.2,h.1.1⟩

theorem junk_returns (E : Env) (s : FatState) :
    (junk E).Returns s fun _ t => AfterMedium s t s.dev.blocks := by
  have h : (Device.junk E).Returns s.dev fun _ d => d.blocks = s.dev.blocks := ⟨_,_,rfl,rfl⟩
  exact ((onDevice_returns h).keeps (junk_sameTable E)).mono fun _ _ h => ⟨h.2,h.1.1⟩

theorem log_returns (e : Event) (s : FatState) : (onDevice (Device.log e)).Returns s fun _ t =>
    AfterMedium s t s.dev.blocks ∧ t.sysbuf = s.sysbuf ∧ t.dev.trace = e :: s.dev.trace := by
  have h : (Device.log e).Returns s.dev fun _ d =>
      d.blocks = s.dev.blocks ∧ d.trace = e :: s.dev.trace := returns_modify ⟨rfl,rfl⟩
  refine ((onDevice_returns h).keeps (log_sameTable e)).mono fun _ t h => ?_
  obtain ⟨⟨⟨hb,htr⟩,ht⟩,htab⟩ := h
  exact ⟨⟨htab,hb⟩,by rw [ht],htr⟩

theorem sysUnlock_returns (s : FatState) :
    sysUnlock.Returns s fun _ t => AfterMedium s t s.dev.blocks ∧ t.sysbuf = s.sysbuf :=
  (log_returns .unlock s).mono fun _ _ h => ⟨h.1,h.2.1⟩

theorem setSysbuf_returns (b : Sector) (s : FatState) :
    (setSysbuf b).Returns s fun _ t => AfterMedium s t s.dev.blocks ∧ t.sysbuf = b :=
  returns_modify ⟨⟨setSysbuf_sameTable b s () _ rfl,rfl⟩,rfl⟩

/-- The access date and the mark for it may change. -/
theorem fatUpdateAtime_returns (E : Env) (fd : Fd) (s : FatState) :
    (fatUpdateAtime E fd).Returns s fun _ t => ∃ now mark, After fd s t s.dev.blocks
      { s.fileNum fd with accessed := now, flags.fsDirty := mark } := by
  refine (time_returns E s).bind fun now t ht => returns_file ?_
  have hst := ht.after fd
  refine returns_ite (fun _ => ?_) fun _ => returns_pure ⟨_,_,hst⟩
  refine (time_returns E t).bind fun now' u hu => ?_
  have hsu := hst.trans (hu.after fd)
  refine (updateFile_returns fd _ u).mono fun _ v hv => ⟨now',true,?_⟩
  rw [hsu.blocks,hst.blocks,hsu.file,hst.file] at hv
  rw [hst.blocks] at hsu
  exact hsu.trans hv

/-- The time of the last change is set. -/
theorem fatUpdateMtime_returns (E : Env) (fd : Fd) (s : FatState) :
    (fatUpdateMtime E fd).Returns s fun _ t => ∃ now, After fd s t s.dev.blocks
      { s.fileNum fd with modified := now, flags.fsDirty := true } := by
  refine (time_returns E s).bind fun now t ht => ?_
  have hst := ht.after fd
  refine (updateFile_returns fd _ t).mono fun _ u hu => ⟨now,?_⟩
  rw [hst.blocks,hst.file] at hu
  exact hst.trans hu

/-! ### Results of transfers that may fail -/

theorem updateFile_result {fd : Fd} {u : FileS → FileS} {s t : FatState} {a : Unit}
    (h : updateFile fd u s = .ok (a,t)) : After fd s t s.dev.blocks (u (s.fileNum fd)) := by
  rw [updateFile_ok h]
  exact updateFile_after fd u s

theorem readBuffer_result {E : Env} {fd : Fd} {b : ℕ} {s t : FatState} {failed : Bool}
    (h : readBuffer E fd b s = .ok (failed,t)) :
    failed = true ∧ After fd s t s.dev.blocks (s.fileNum fd) ∨ failed = false ∧
      After fd s t s.dev.blocks { s.fileNum fd with buffer := s.dev.blocks b } := by
  have hbut := readBuffer_sameBut E fd b _ _ _ h
  obtain ⟨o,u,hu,h⟩ := bind_ok h
  obtain ⟨d,hd,rfl⟩ := onDevice_ok hu
  simp only [Device.blockRead,Except.ok.injEq,Prod.mk.injEq] at hd
  obtain ⟨ho,rfl⟩ := hd
  split at ho
  · subst ho
    obtain ⟨rfl,rfl⟩ := pure_ok h
    exact .inl ⟨rfl,hbut,rfl,rfl⟩
  · subst ho
    obtain ⟨a,v,hv,h⟩ := bind_ok h
    obtain rfl := updateFile_ok hv
    obtain ⟨rfl,rfl⟩ := pure_ok h
    exact .inr ⟨rfl,hbut,rfl,FatState.setFile_self _ _ _⟩

theorem writeBlock_result {E : Env} {o : Origin} {b : ℕ} {data : Sector} {s t : FatState}
    (h : writeBlock E o b data s = .ok (false,t)) :
    b < s.dev.size ∧ AfterMedium s t (Function.update s.dev.blocks b data) := by
  have htable := writeBlock_sameTable E o b data _ _ _ h
  obtain ⟨d,hd,rfl⟩ := onDevice_ok h
  rw [Device.blockWrite] at hd
  split at hd
  · simp at hd
  · rename_i hok
    simp only [Except.ok.injEq,Prod.mk.injEq,true_and] at hd
    subst hd
    exact ⟨Nat.lt_of_not_le fun h => hok (.inr h),htable,rfl⟩

/-! ### Transfers that return, failing or not -/

theorem blockRead_total (E : Env) (b : ℕ) (d : Device) : (Device.blockRead E b).Returns d fun o e =>
    e.blocks = d.blocks ∧ (o = none ∨ o = some (d.blocks b)) := by
  refine ⟨_,_,rfl,rfl,?_⟩
  split
  · exact .inl rfl
  · exact .inr rfl

theorem readSysbuf_total (E : Env) (b : ℕ) (s : FatState) : (readSysbuf E b).Returns s fun failed t =>
    AfterMedium s t s.dev.blocks ∧ (failed = false → t.sysbuf = s.dev.blocks b) := by
  have h : (readSysbuf E b).Returns s fun failed t => t.dev.blocks = s.dev.blocks ∧
      (failed = false → t.sysbuf = s.dev.blocks b) := by
    refine (onDevice_returns (blockRead_total E b s.dev)).bind fun o t h => ?_
    obtain ⟨⟨hblocks,rfl | rfl⟩,-⟩ := h
    · exact returns_pure ⟨hblocks,by simp⟩
    · refine (setSysbuf_returns _ t).bind fun _ u hu => returns_pure ?_
      exact ⟨hu.1.blocks.trans hblocks,fun _ => hu.2⟩
  exact (h.keeps (readSysbuf_sameTable E b)).mono fun _ _ h => ⟨⟨h.2,h.1.1⟩,h.1.2⟩

theorem sysLock_total (E : Env) (s : FatState) : (sysLock E).Returns s fun _ t =>
    AfterMedium s t s.dev.blocks := by
  have h : (Device.sysLock E).Returns s.dev fun _ d => d.blocks = s.dev.blocks := by
    rw [Returns,Device.sysLock]
    split
    · exact ⟨_,_,rfl,rfl⟩
    · exact ⟨_,_,rfl,rfl⟩
  exact ((onDevice_returns h).keeps (sysLock_sameTable E)).mono fun _ _ h => ⟨h.2,h.1.1⟩

/-! ### Transfers that cannot fail -/

section NoFault
variable {E : Env} (hE : E.NoFault)
include hE

theorem sysLock_returns (s : FatState) : (sysLock E).Returns s fun granted t =>
    granted = true ∧ AfterMedium s t s.dev.blocks ∧ t.sysbuf = s.sysbuf := by
  have h : (Device.sysLock E).Returns s.dev fun granted d =>
      granted = true ∧ d.blocks = s.dev.blocks := by
    rw [Returns,Device.sysLock,if_neg (by simp [hE.lock])]
    exact ⟨_,_,rfl,rfl,rfl⟩
  refine ((onDevice_returns h).keeps (sysLock_sameTable E)).mono fun _ t h => ?_
  obtain ⟨⟨⟨hgranted,hb⟩,ht⟩,htab⟩ := h
  exact ⟨hgranted,⟨htab,hb⟩,by rw [ht]⟩

theorem blockRead_returns {d : Device} {b : ℕ} (hb : b < d.size) :
    (Device.blockRead E b).Returns d fun o e => o = some (d.blocks b) ∧ e.blocks = d.blocks :=
  ⟨_,_,rfl,if_neg (by simp [hE.read,hb]),rfl⟩

theorem blockWrite_returns {d : Device} {b : ℕ} (o : Origin) (data : Sector) (hb : b < d.size) :
    (Device.blockWrite E o b data).Returns d fun failed e => failed = false ∧
      e.blocks = Function.update d.blocks b data ∧ e.trace = .write o b data :: d.trace := by
  rw [Returns,Device.blockWrite,if_neg (by simp [hE.write,hb])]
  exact ⟨_,_,rfl,rfl,rfl,rfl⟩

theorem readSysbuf_returns {s : FatState} {b : ℕ} (hb : b < s.dev.size) :
    (readSysbuf E b).Returns s fun failed t => failed = false ∧
      AfterMedium s t s.dev.blocks ∧ t.sysbuf = s.dev.blocks b := by
  have h : (readSysbuf E b).Returns s fun failed t => failed = false ∧
      t.dev.blocks = s.dev.blocks ∧ t.sysbuf = s.dev.blocks b := by
    refine (onDevice_returns (blockRead_returns hE hb)).bind fun o t h => ?_
    obtain ⟨⟨rfl,hblocks⟩,-⟩ := h
    refine (setSysbuf_returns _ t).bind fun _ u hu => returns_pure ?_
    exact ⟨rfl,hu.1.blocks.trans hblocks,hu.2⟩
  refine (h.keeps (readSysbuf_sameTable E b)).mono fun _ _ h => ?_
  exact ⟨h.1.1,⟨h.2,h.1.2.1⟩,h.1.2.2⟩

theorem readBuffer_returns {fd : Fd} {s : FatState} {b : ℕ} (hb : b < s.dev.size) :
    (readBuffer E fd b).Returns s fun failed t => failed = false ∧
      After fd s t s.dev.blocks { s.fileNum fd with buffer := s.dev.blocks b } := by
  have h : (readBuffer E fd b).Returns s fun failed t => failed = false ∧
      t.dev.blocks = s.dev.blocks ∧
        t.fileNum fd = { s.fileNum fd with buffer := s.dev.blocks b } := by
    refine (onDevice_returns (blockRead_returns hE hb)).bind fun o t h => ?_
    obtain ⟨⟨rfl,hblocks⟩,ht⟩ := h
    refine (updateFile_returns fd _ t).bind fun _ u hu => returns_pure ?_
    refine ⟨rfl,hu.blocks.trans hblocks,hu.file.trans ?_⟩
    rw [ht]
  refine (h.keeps (readBuffer_sameBut E fd b)).mono fun _ _ h => ?_
  exact ⟨h.1.1,h.2,h.1.2.1,h.1.2.2⟩

theorem writeBlock_returns {s : FatState} {b : ℕ} (o : Origin) (data : Sector) (hb : b < s.dev.size) :
    (writeBlock E o b data).Returns s fun failed t => failed = false ∧
      AfterMedium s t (Function.update s.dev.blocks b data) ∧ t.sysbuf = s.sysbuf ∧
        t.dev.trace = .write o b data :: s.dev.trace := by
  refine ((onDevice_returns (blockWrite_returns hE o data hb)).keeps
    (writeBlock_sameTable E o b data)).mono fun _ t h => ?_
  obtain ⟨⟨⟨hfailed,hblocks,htrace⟩,ht⟩,htab⟩ := h
  exact ⟨hfailed,⟨htab,hblocks⟩,by rw [ht],htrace⟩

end NoFault

end Gristle
