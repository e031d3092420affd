import Gristle.Embext
import Gristle.Quiet

/-! The ext2 driver on a volume that is mounted read only: apart from closing a file that was read
from and unmounting, no call writes a block. -/
namespace Gristle

/-- A file that cannot write data. -/
structure FileEnt.Quiet (f : FileEnt) : Prop where
  clean : f.flags.dirty = false
  unwritable : f.flags.write = false

namespace Ext2
open Prog

/-- The context is read only and no open file can write data. -/
structure Guarded (s : Ext2State) : Prop where
  readOnly : ∀ c, s.context = some c → c.readOnly ≠ 0
  quiet : ∀ fe f, s.files fe = some f → f.Quiet

/-- From a guarded state no block is written and the state stays guarded. -/
def Unwritten (s t : Ext2State) : Prop := Guarded s → Guarded t ∧ SameMedium s.dev t.dev

instance : Std.Refl Unwritten := ⟨fun _ h => ⟨h,rfl,rfl⟩⟩

instance : IsTrans Ext2State Unwritten where
  trans _ _ _ h h' hg :=
    have ⟨hg₁,hm₁⟩ := h hg
    have ⟨hg₂,hm₂⟩ := h' hg₁
    ⟨hg₂,IsTrans.trans _ _ _ hm₁ hm₂⟩

theorem Guarded.store {s : Ext2State} (hg : Guarded s) {fe : ℕ} {o : Option FileEnt}
    (ho : ∀ f, o = some f → f.Quiet) : Guarded { s with files := Function.update s.files fe o } := by
  refine ⟨hg.readOnly,fun k f hk => ?_⟩
  change Function.update s.files fe o k = some f at hk
  by_cases h : k = fe
  · subst h
    rw [Function.update_self] at hk
    exact ho f hk
  · rw [Function.update_of_ne h] at hk
    exact hg.quiet k f hk

/-! ### The basic programs -/

section Basic
variable {α : Type} (E : Env)

theorem onDevice_unwritten {x : Prog Device α} (hx : Keeps SameMedium x) :
    Keeps Unwritten (onDevice x) := by
  intro s a t h hg
  obtain ⟨d,hd,rfl⟩ := zoom_ok h
  exact ⟨⟨hg.readOnly,hg.quiet⟩,hx _ _ _ hd⟩

theorem context_unwritten : Keeps Unwritten context := by
  intro s c t h
  unfold context at h
  cases hc : s.context with
  | none => simp [hc] at h
  | some c' =>
    simp only [hc,Except.ok.injEq,Prod.mk.injEq] at h
    rw [← h.2]
    exact Std.Refl.refl s

theorem file_unwritten {fe : ℕ} {k : FileEnt → Ext2M α} (h : ∀ f : FileEnt, f.Quiet → Keeps Unwritten (k f)) :
    Keeps Unwritten (file fe >>= k) := by
  intro s a t hk hg
  obtain ⟨f,u,hf,hk⟩ := bind_ok hk
  unfold file at hf
  cases hs : s.files fe with
  | none => simp [hs] at hf
  | some f' =>
    simp only [hs,Except.ok.injEq,Prod.mk.injEq] at hf
    obtain ⟨rfl,rfl⟩ := hf
    exact h f' (hg.quiet fe f' hs) _ _ _ hk hg

theorem updateFile_unwritten {fe : ℕ} {u : FileEnt → FileEnt} (hu : ∀ f : FileEnt, f.Quiet → (u f).Quiet) :
    Keeps Unwritten (updateFile fe u) := by
  refine keeps_modify fun s hg => ⟨hg.store fun f hf => ?_,rfl,rfl⟩
  cases hs : s.files fe with
  | none => simp [hs] at hf
  | some f' =>
    rw [hs] at hf
    rw [← Option.some.inj hf]
    exact hu f' (hg.quiet fe f' hs)

theorem setSysbuf_unwritten (b : Sector) : Keeps Unwritten (setSysbuf b) := by
  refine keeps_modify fun s hg => ⟨⟨fun c hc => ?_,hg.quiet⟩,rfl,rfl⟩
  obtain ⟨c',hc',rfl⟩ := Option.map_eq_some_iff.1 hc
  exact hg.readOnly c' hc'

theorem readSysbuf_unwritten (b : ℕ) : Keeps Unwritten (readSysbuf E b) := by
  refine keeps_bind (onDevice_unwritten (blockRead_sameMedium E b)) fun o => ?_
  cases o with
  | none => exact keeps_pure ()
  | some d => exact setSysbuf_unwritten d

theorem readBuffer_unwritten (fe b : ℕ) : Keeps Unwritten (readBuffer E fe b) := by
  refine keeps_bind (onDevice_unwritten (blockRead_sameMedium E b)) fun o => ?_
  cases o with
  | none => exact keeps_pure true
  | some d =>
    exact keeps_bind (updateFile_unwritten fun f hq => ⟨hq.1,hq.2⟩) fun _ => keeps_pure false

theorem shl32_unwritten (x k : ℕ) : Keeps Unwritten (shl32 x k) := keeps_ite (keeps_pure _) (keeps_stop _)

theorem oneShl_unwritten (k : ℕ) : Keeps Unwritten (oneShl k) :=
  keeps_ite (keeps_pure _) (keeps_ite (keeps_stop _) (keeps_stop _))

theorem divisor_unwritten (n : ℕ) : Keeps Unwritten (divisor n) := keeps_ite (keeps_stop _) (keeps_pure _)

end Basic

/-! ### The functions on one file -/

section File
variable (E : Env) (fe : ℕ)

theorem flush_unwritten : Keeps Unwritten (flush E fe) := by
  refine file_unwritten fun f hq => ?_
  simp only [hq.clean]
  exact keeps_pure 0

theorem loadInodeBlock_unwritten (inode : ℤ) : Keeps Unwritten (loadInodeBlock E inode) := by
  refine keeps_bind context_unwritten fun c => keeps_bind (divisor_unwritten _) fun n => ?_
  refine keeps_bind (shl32_unwritten _ _) fun _ => keeps_bind (readSysbuf_unwritten E _) fun _ => ?_
  refine keeps_bind context_unwritten fun _ => keeps_bind (shl32_unwritten _ _) fun _ => ?_
  refine keeps_bind (divisor_unwritten _) fun _ => keeps_bind (divisor_unwritten _) fun _ => ?_
  exact keeps_bind (readSysbuf_unwritten E _) fun _ => keeps_ite (keeps_stop _) (keeps_pure _)

theorem updateAtime_unwritten : Keeps Unwritten (updateAtime E fe) :=
  keeps_bind (onDevice_unwritten (time_sameMedium E)) fun _ =>
    updateFile_unwritten fun f hq => ⟨hq.1,hq.2⟩

theorem openInode_unwritten (inode : ℤ) : Keeps Unwritten (openInode E fe inode) := by
  refine keeps_bind (loadInodeBlock_unwritten E inode) fun p => keeps_bind context_unwritten fun c => ?_
  refine keeps_bind (updateFile_unwritten fun f hq => ⟨hq.1,hq.2⟩) fun _ => file_unwritten fun f _ => ?_
  refine keeps_bind (shl32_unwritten _ _) fun _ => keeps_bind (readBuffer_unwritten E fe _) fun _ => ?_
  refine keeps_bind (oneShl_unwritten _) fun _ => ?_
  exact keeps_bind (updateFile_unwritten fun _ _ => ⟨rfl,rfl⟩) fun _ => keeps_pure 0

theorem nextBlock_unwritten : Keeps Unwritten (nextBlock E fe) := by
  refine file_unwritten fun f _ => keeps_ite ?_ (keeps_pure true)
  refine keeps_bind (updateFile_unwritten fun f hq => ⟨hq.1,hq.2⟩) fun _ => file_unwritten fun f _ => ?_
  refine keeps_ite ?_ (keeps_pure true)
  refine keeps_bind context_unwritten fun c => keeps_bind (oneShl_unwritten _) fun _ => ?_
  refine keeps_bind (shl32_unwritten _ _) fun _ => ?_
  exact keeps_bind (updateFile_unwritten fun f hq => ⟨hq.1,hq.2⟩) fun _ => readBuffer_unwritten E fe _

theorem nextSector_unwritten : Keeps Unwritten (nextSector E fe) := by
  refine file_unwritten fun f _ => keeps_ite ?_ (nextBlock_unwritten E fe)
  refine keeps_bind (updateFile_unwritten fun f hq => ⟨hq.1,hq.2⟩) fun _ => file_unwritten fun f _ => ?_
  refine keeps_bind (readBuffer_unwritten E fe _) fun _ => ?_
  exact keeps_bind (updateFile_unwritten fun f hq => ⟨hq.1,hq.2⟩) fun _ => keeps_pure false

theorem readLoop_unwritten (n : ℕ) : Keeps Unwritten (readLoop E fe n) := by
  induction n with
  | zero => exact keeps_pure []
  | succ n ih =>
    refine file_unwritten fun f _ => keeps_ite (keeps_pure []) (keeps_ite (keeps_stop _) ?_)
    refine keeps_bind (updateFile_unwritten fun f hq => ⟨hq.1,hq.2⟩) fun _ => ?_
    refine keeps_bind (keeps_ite (nextSector_unwritten E fe) (keeps_pure false)) fun _ => ?_
    exact keeps_bind ih fun _ => keeps_pure _

end File

/-! ### The calls -/

section Calls
variable (E : Env) (fe : Option ℕ)

theorem read_unwritten (n : ℕ) (e : ℤ) : Keeps Unwritten (read E fe n e) := by
  cases fe with
  | none => exact keeps_pure _
  | some fe =>
    refine keeps_bind (readLoop_unwritten E fe n) fun bytes => ?_
    exact keeps_bind (keeps_ite (updateAtime_unwritten E fe) (keeps_pure ())) fun _ => keeps_pure _

theorem lseek_unwritten (ptr : ℤ) (dir : Whence) : Keeps Unwritten (lseek E fe ptr dir) := by
  cases fe with
  | none => exact keeps_pure _
  | some fe =>
    have hload (x : ℕ) (n : ℤ) : Keeps Unwritten (do
        if ← readBuffer E fe x then pure (ptr - 1,0) else pure (n,0) : Ext2M (ℤ × ℤ)) :=
      keeps_bind (readBuffer_unwritten E fe x) fun _ => keeps_ite (keeps_pure _) (keeps_pure _)
    refine file_unwritten fun f _ => keeps_ite (keeps_pure _) (keeps_ite (keeps_pure _) ?_)
    refine keeps_ite (keeps_bind (updateFile_unwritten fun f hq => ⟨hq.1,hq.2⟩) fun _ => keeps_pure _) ?_
    refine keeps_bind context_unwritten fun c => keeps_bind (oneShl_unwritten _) fun _ => ?_
    refine keeps_ite (keeps_bind (flush_unwritten E fe) fun _ => ?_)
      (keeps_bind (flush_unwritten E fe) fun _ => keeps_ite (keeps_pure _) ?_)
    · exact keeps_bind (updateFile_unwritten fun f hq => ⟨hq.1,hq.2⟩) fun _ =>
        file_unwritten fun f _ => hload _ _
    · exact keeps_bind (oneShl_unwritten _) fun _ =>
        keeps_bind (updateFile_unwritten fun f hq => ⟨hq.1,hq.2⟩) fun _ =>
        file_unwritten fun f _ => hload _ _

/-- Without the write bit a write is refused. -/
theorem write_unwritten (bytes : List UInt8) (e : ℤ) : Keeps Unwritten (write E fe bytes e) := by
  cases fe with
  | none => exact keeps_pure _
  | some fe =>
    refine file_unwritten fun f hq => ?_
    simp only [hq.unwritable,if_true]
    exact keeps_pure _

theorem readdir_unwritten (e : ℤ) : Keeps Unwritten (readdir E fe e) := by
  have hread (n : ℕ) (e : ℤ) := read_unwritten E fe n e
  have hde (u : Ext2State → Ext2Dirent) : Keeps Unwritten (modify fun s => { s with de := u s }) :=
    keeps_modify fun s hg => ⟨⟨hg.readOnly,hg.quiet⟩,rfl,rfl⟩
  refine keeps_bind (hread 4 e) fun p => keeps_ite (keeps_pure _) ?_
  refine keeps_bind (hread 2 _) fun p => keeps_ite (keeps_pure _) ?_
  refine keeps_bind (hread 1 _) fun p => keeps_ite (keeps_pure _) ?_
  refine keeps_bind (hread 1 _) fun p => keeps_ite (keeps_pure _) ?_
  refine keeps_bind (hde fun s => { s.de with dIno := _ }) fun _ => keeps_ite ?_ (keeps_pure _)
  refine keeps_bind (hread _ _) fun p => ?_
  refine keeps_bind (hde fun s => { s.de with dName := _ }) fun _ => ?_
  exact keeps_bind (lseek_unwritten E fe _ _) fun p => keeps_pure _

end Calls

section Open
variable (E : Env) (fe : ℕ)

theorem findEntry_unwritten (element : List UInt8) (n : ℕ) (e : ℤ) :
    Keeps Unwritten (findEntry E fe element n e) := by
  induction n generalizing e with
  | zero => exact keeps_stop .fuel
  | succ n ih =>
    refine keeps_bind (readdir_unwritten E (some fe) e) fun p => keeps_ite ?_ (keeps_pure _)
    exact keeps_bind keeps_get fun s => keeps_ite (keeps_pure _) (ih p.2)

theorem lookupLoop_unwritten (elements : List (List UInt8)) (ino e : ℤ) :
    Keeps Unwritten (lookupLoop E fe elements ino e) := by
  induction elements generalizing ino e with
  | nil => exact keeps_bind (openInode_unwritten E fe ino) fun _ => keeps_pure _
  | cons element rest ih =>
    refine keeps_bind (openInode_unwritten E fe ino) fun _ => ?_
    refine keeps_bind (findEntry_unwritten E fe element _ e) fun p => ?_
    obtain ⟨o,e'⟩ := p
    cases o with
    | none => exact keeps_pure _
    | some ino => exact ih ino e'

theorem refuse_unwritten {s t : Ext2State} {e : ℤ} {p : Option ℕ × ℤ} (h : refuse fe e s = .ok (p,t))
    (hro : ∀ c, s.context = some c → c.readOnly ≠ 0)
    (hq : ∀ k f, k ≠ fe → s.files k = some f → f.Quiet) : Guarded t ∧ SameMedium s.dev t.dev := by
  obtain ⟨a,u,hu,h⟩ := bind_ok h
  simp only [storeFile,modify_apply,Except.ok.injEq,Prod.mk.injEq] at hu
  obtain ⟨-,rfl⟩ := hu
  simp only [pure_apply,Except.ok.injEq,Prod.mk.injEq] at h
  rw [← h.2]
  refine ⟨⟨hro,fun k f hk => ?_⟩,rfl,rfl⟩
  change Function.update s.files fe none k = some f at hk
  by_cases he : k = fe
  · rw [he,Function.update_self] at hk
    exact absurd hk (by simp)
  · rw [Function.update_of_ne he] at hk
    exact hq k f he hk

theorem context_ok {s t : Ext2State} {c : Ext2Context} (h : context s = .ok (c,t)) :
    s.context = some c ∧ t = s := by
  unfold context at h
  cases hc : s.context with
  | none => simp [hc] at h
  | some c' =>
    simp only [hc,Except.ok.injEq,Prod.mk.injEq] at h
    exact ⟨by rw [h.1],h.2.symm⟩

theorem openPath_unwritten (name : List UInt8) (flags : OpenFlags) (e : ℤ) :
    Keeps Unwritten (openPath E name flags e) := by
  intro s p t h hg
  rw [openPath,bind_of_ok rfl,bind_of_ok rfl,bind_of_ok rfl] at h
  set fe := s.nextFile
  obtain ⟨⟨i,e₁⟩,v,hv,h⟩ := bind_ok h
  have hstore : Guarded { s with files := Function.update s.files fe (some .zero) } := by
    refine hg.store fun f hf => ?_
    obtain rfl := Option.some.inj hf
    exact ⟨rfl,rfl⟩
  have hg₀ : Guarded { s with nextFile := fe + 1, files := Function.update s.files fe (some .zero) } :=
    ⟨hstore.readOnly,hstore.quiet⟩
  obtain ⟨hgv,hmv⟩ := lookupLoop_unwritten E fe _ _ _ _ _ _ hv hg₀
  have hm : SameMedium s.dev v.dev := hmv
  obtain ⟨a,w,hw,h⟩ := bind_ok h
  simp only [updateFile,modify_apply,Except.ok.injEq,Prod.mk.injEq] at hw
  obtain ⟨-,rfl⟩ := hw
  obtain ⟨c,w,hw,h₁⟩ := bind_ok h
  obtain ⟨hcontext,rfl⟩ := context_ok hw
  have hro : c.readOnly ≠ 0 := hgv.readOnly c hcontext
  set o := (v.files fe).map fun f => { f with flags := access flags f.flags }
  have hrefuse {e : ℤ} (h : refuse fe e { v with files := Function.update v.files fe o } = .ok (p,t)) :
      Guarded t ∧ SameMedium s.dev t.dev := by
    obtain ⟨hgt,hmt⟩ := refuse_unwritten fe h hgv.readOnly fun k f hk hf => by
      change Function.update v.files fe _ k = some f at hf
      rw [Function.update_of_ne hk] at hf
      exact hgv.quiet k f hf
    exact ⟨hgt,IsTrans.trans _ _ _ hm hmt⟩
  simp only [run_ite,if_pos hro] at h₁
  split at h₁
  · split at h₁
    · exact hrefuse h₁
    · exact hrefuse h₁
  split at h₁
  · split at h₁
    · exact hrefuse h₁
    split at h₁
    · rename_i hflags
      obtain ⟨b,x,hx,h₂⟩ := bind_ok h₁
      simp only [pure_apply,Except.ok.injEq,Prod.mk.injEq] at h₂
      rw [← h₂.2]
      have hgw : Keeps Unwritten (do
          updateFile fe fun f => { f with flags := access flags f.flags }
          updateFile fe fun f => { f with fileSector := 0 }) :=
        keeps_bind (updateFile_unwritten fun f hq => ⟨hq.clean,by simp [access,hflags,hq.unwritable]⟩)
          fun _ => updateFile_unwritten fun f hq => ⟨hq.1,hq.2⟩
      obtain ⟨hgx,hmx⟩ := hgw v b x (by rw [bind_of_ok rfl]; exact hx) hgv
      exact ⟨hgx,IsTrans.trans _ _ _ hm hmx⟩
    · exact hrefuse h₁
  · exact hrefuse h₁

end Open

/-! ### Programs -/

/-- A call of the ext2 driver with its arguments; a handle may be `NULL`. -/
inductive Call
  | openPath (path : List UInt8) (flags : OpenFlags) (rerrno : ℤ)
  | read (fe : Option ℕ) (count : ℕ) (rerrno : ℤ)
  | write (fe : Option ℕ) (bytes : List UInt8) (rerrno : ℤ)
  | lseek (fe : Option ℕ) (ptr : ℤ) (dir : Whence)
  | readdir (fe : Option ℕ) (rerrno : ℤ)
  | close (fe : Option ℕ) (rerrno : ℤ)
  | umount

/-- Make a call; the results play no part in the properties below. -/
def Call.exec (E : Env) : Call → Ext2M Unit
  | .openPath path flags e => do let _ ← Ext2.openPath E path flags e
  | .read fe n e => do let _ ← Ext2.read E fe n e
  | .write fe bytes e => do let _ ← Ext2.write E fe bytes e
  | .lseek fe ptr dir => do let _ ← Ext2.lseek E fe ptr dir
  | .readdir fe e => do let _ ← Ext2.readdir E fe e
  | .close fe e => do let _ ← Ext2.close E fe e
  | .umount => do let _ ← Ext2.umount E

/-- What a call needs to leave a read-only volume alone: a file that is closed has no inode to write
back, and a context that is unmounted has no copy of its superblock. -/
def Call.Harmless (s : Ext2State) : Call → Prop
  | .close (some fe) _ => ∀ f, s.files fe = some f → f.flags.fsDirty = false
  | .umount => ∀ c, s.context = some c → c.superblockBlocks = []
  | _ => True

section Harmless
variable {E : Env} {s t : Ext2State}

theorem close_unwritten {fe : Option ℕ} {e : ℤ} {p : ℤ × ℤ} (hg : Guarded s)
    (hc : (Call.close fe e).Harmless s) (h : close E fe e s = .ok (p,t)) :
    Guarded t ∧ SameMedium s.dev t.dev := by
  cases fe with
  | none => exact keeps_pure (R := Unwritten) _ _ _ _ h hg
  | some fe =>
    obtain ⟨f,u,hf,h⟩ := bind_ok h
    unfold file at hf
    cases hs : s.files fe with
    | none => simp [hs] at hf
    | some f' =>
      simp only [hs,Except.ok.injEq,Prod.mk.injEq] at hf
      obtain ⟨rfl,rfl⟩ := hf
      simp only [(hg.quiet fe f' hs).clean] at h
      rw [bind_of_ok rfl,run_ite,if_neg (by simp)] at h
      have hfile : file fe s = .ok (f',s) := by
        unfold file
        rw [hs]
      rw [bind_of_ok hfile] at h
      simp only [hc f' hs] at h
      rw [bind_of_ok rfl,run_ite,if_neg (by simp)] at h
      obtain ⟨a,u,hu,h⟩ := bind_ok h
      simp only [storeFile,modify_apply,Except.ok.injEq,Prod.mk.injEq] at hu
      obtain ⟨-,rfl⟩ := hu
      simp only [pure_apply,Except.ok.injEq,Prod.mk.injEq] at h
      rw [← h.2]
      exact ⟨hg.store (by simp),rfl,rfl⟩

theorem umount_unwritten {r : ℤ} (hg : Guarded s) (hc : Call.umount.Harmless s)
    (h : umount E s = .ok (r,t)) : Guarded t ∧ SameMedium s.dev t.dev := by
  obtain ⟨a,u,hu,h⟩ := bind_ok h
  obtain ⟨c,v,hv,hloop⟩ := bind_ok hu
  obtain ⟨hcontext,rfl⟩ := context_ok hv
  rw [hc c hcontext,bind_of_ok rfl] at hloop
  simp only [flushSuperblockLoop,pure_apply,Except.ok.injEq,Prod.mk.injEq] at hloop
  obtain ⟨-,rfl⟩ := hloop
  rw [bind_of_ok rfl] at h
  simp only [pure_apply,Except.ok.injEq,Prod.mk.injEq] at h
  rw [← h.2]
  exact ⟨⟨by simp,hg.quiet⟩,rfl,rfl⟩

theorem exec_unwritten {c : Call} {a : Unit} (hg : Guarded s) (hc : c.Harmless s)
    (h : c.exec E s = .ok (a,t)) : Guarded t ∧ SameMedium s.dev t.dev := by
  cases c with
  | openPath path flags e =>
    exact keeps_bind (openPath_unwritten E path flags e) (fun _ => keeps_pure _) _ _ _ h hg
  | read fe n e => exact keeps_bind (read_unwritten E fe n e) (fun _ => keeps_pure _) _ _ _ h hg
  | write fe bytes e => exact keeps_bind (write_unwritten E fe bytes e) (fun _ => keeps_pure _) _ _ _ h hg
  | lseek fe ptr dir => exact keeps_bind (lseek_unwritten E fe ptr dir) (fun _ => keeps_pure _) _ _ _ h hg
  | readdir fe e => exact keeps_bind (readdir_unwritten E fe e) (fun _ => keeps_pure _) _ _ _ h hg
  | close fe e =>
    obtain ⟨p,u,hu,h⟩ := bind_ok h
    simp only [pure_apply,Except.ok.injEq,Prod.mk.injEq] at h
    rw [← h.2]
    exact close_unwritten hg hc hu
  | umount =>
    obtain ⟨p,u,hu,h⟩ := bind_ok h
    simp only [pure_apply,Except.ok.injEq,Prod.mk.injEq] at h
    rw [← h.2]
    exact umount_unwritten hg hc hu

/-- A run of harmless calls on a read-only volume issues no `block_write`. -/
theorem runs_unwritten {cs : List Call} (hg : Guarded s)
    (h : Steps (fun s c t => c.Harmless s ∧ c.exec E s = .ok ((),t)) s cs t) :
    Guarded t ∧ SameMedium s.dev t.dev := by
  induction h with
  | nil s => exact ⟨hg,rfl,rfl⟩
  | cons head tail ih =>
    obtain ⟨hg',hm⟩ := exec_unwritten hg head.1 head.2
    obtain ⟨hgt,hmt⟩ := ih hg'
    exact ⟨hgt,IsTrans.trans _ _ _ hm hmt⟩

end Harmless

end Ext2

end Gristle
