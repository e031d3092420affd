import Gristle.Arithmetic
import Gristle.Ext2Walk
import Gristle.ReadBounds

/-! Path lookup on an ext2 volume with any content: the search of a directory ends as long as every record
it reads leads on. -/
namespace Gristle
open Prog

theorem Inode.iSize_lt (d : Inode) : d.iSize < 2^32 := d.bytes.le32_lt _

/-! ### How far a file has been read -/

namespace FileEnt

/-- The number of the next byte. -/
def place (f : FileEnt) : ℕ := f.fileSector * 512 + f.cursor

/-- The file stands in its buffer or right behind it, nowhere behind its content, with nothing to write. -/
structure Loose (f : FileEnt) : Prop where
  clean : f.flags.dirty = false
  cursor : f.cursor ≤ 512
  within : f.place ≤ f.inode.iSize

/-- It stands behind its buffer only where its content ends. -/
structure Ready (f : FileEnt) : Prop extends Loose f where
  behind : f.cursor = 512 → f.place = f.inode.iSize

/-- After `n` more bytes. -/
structure Moved (f : FileEnt) (n : ℕ) (g : FileEnt) : Prop where
  loose : g.Loose
  size : g.inode.iSize = f.inode.iSize
  place : g.place = f.place + n

variable {f g h : FileEnt} {n m : ℕ}

theorem Loose.moved (hf : f.Loose) : f.Moved 0 f := ⟨hf,rfl,(Nat.add_zero _).symm⟩

theorem Moved.trans (hg : f.Moved n g) (hh : g.Moved m h) : f.Moved (n + m) h := by
  refine ⟨hh.loose,hh.size.trans hg.size,?_⟩
  rw [hh.place,hg.place,Nat.add_assoc]

theorem Loose.position (hf : f.Loose) : Ext2.position f = f.place :=
  position_eq (lt_of_le_of_lt hf.within f.inode.iSize_lt)

end FileEnt

namespace Ext2
variable {c : Ext2Context} {N fe : ℕ} {B : ℕ → Sector} {f : FileEnt} {s t : Ext2State} {E : Env}

/-! ### A record -/

/-- `ext2_read` without its result and `*rerrno`. -/
def readBytes (E : Env) (fe n : ℕ) : Ext2M (List UInt8) := do
  let bytes ← readLoop E fe n
  let _ ← (if 0 < bytes.length then updateAtime E fe else pure ())
  pure bytes

/-- What `ext2_readdir` does before its seek: how far it will seek, if there is a record. -/
def readRecord (E : Env) (fe : ℕ) : Ext2M (Option ℤ) := do
  let ino ← readBytes E fe 4
  if i32 ino.length < 4 then pure none
  else
    let recLen ← readBytes E fe 2
    if i32 recLen.length < 2 then pure none
    else
      let nameLen ← readBytes E fe 1
      if i32 nameLen.length < 1 then pure none
      else
        let fileType ← readBytes E fe 1
        if i32 fileType.length < 1 then pure none
        else
          let dIno := i32 ((Sector.ofBytes ino).le32 0)
          Prog.modify fun s => { s with de := { s.de with dIno := dIno } }
          if 0 < dIno then
            let nameLen := (nameLen.getD 0 0).toNat
            let name ← readBytes E fe nameLen
            Prog.modify fun s => { s with de := { s.de with dName := fun k =>
              if k = nameLen then 0 else if k < name.length then name.getD k 0 else s.de.dName k } }
            pure (some ((Sector.ofBytes recLen).le16 0 - 8 - nameLen))
          else pure none

/-- The seek to the next record. -/
def seekNext (E : Env) (fe : ℕ) (e : ℤ) : Option ℤ → Ext2M (Bool × ℤ)
  | none => pure (false,e)
  | some ptr => do
    let (_,e) ← lseek E (some fe) ptr .cur
    pure (true,e)

theorem bind_assoc {α β γ : Type} (x : Ext2M α) (y : α → Ext2M β) (z : β → Ext2M γ) :
    (x >>= y) >>= z = x >>= fun a => y a >>= z := by
  funext s
  simp only [bind_apply]
  cases x s <;> rfl

theorem bind_ite {α β : Type} (p : Prop) [Decidable p] (x y : Ext2M α) (z : α → Ext2M β) :
    (if p then x else y) >>= z = if p then x >>= z else y >>= z := by
  split <;> rfl

theorem read_eq (n : ℕ) (e : ℤ) : read E (some fe) n e =
    readBytes E fe n >>= fun bytes => pure (i32 bytes.length,e,bytes) := by
  simp only [read,readBytes,bind_assoc]
  rfl

theorem readdir_eq (e : ℤ) : readdir E (some fe) e = readRecord E fe >>= seekNext E fe e := by
  simp only [readdir,readRecord,read_eq,bind_assoc,bind_ite,Prog.pure_bind]
  rfl

/-! ### Reading -/

/-- At the end of its buffer a file goes on with the next sector, or stays where it is. -/
theorem nextSector_moves (E : Env) (hc : c.WellFormed) (h : At c N fe B f s) (hf : f.Loose)
    (hfull : f.cursor = 512) :
    (nextSector E fe).Returns s fun _ t => ∃ g, At c N fe B g t ∧ f.Moved 0 g := by
  have hlimit := f.inode.iSize_lt
  have hwithin := hf.within
  rw [FileEnt.place] at hwithin
  have hlog := hc.log
  have hnext {g : FileEnt} (hinode : g.inode = f.inode) (hflags : g.flags = f.flags)
      (hcursor : g.cursor = 0) (hsector : g.fileSector = u32 (f.fileSector + 1)) : f.Moved 0 g := by
    have hplace : g.place = f.place := by
      rw [FileEnt.place,FileEnt.place,hcursor,hsector,u32_of_lt (by omega),hfull,Nat.succ_mul]
    refine ⟨⟨?_,?_,?_⟩,by rw [hinode],by rw [hplace,Nat.add_zero]⟩
    · rw [hflags]
      exact hf.clean
    · omega
    · rw [hplace,hinode]
      exact hf.within
  refine returns_file h (returns_ite (fun _ => ?_) fun _ => ?_)
  · refine (updateFile_at h _).bind fun _ t ht => returns_file ht ?_
    refine (readBuffer_total E ht _).bind fun _ u hu => ?_
    obtain ⟨d,hu⟩ := hu
    exact (updateFile_at hu _).bind fun _ v hv => returns_pure ⟨_,hv,hnext rfl rfl rfl rfl⟩
  refine returns_file h (returns_ite (fun _ => ?_) fun _ => returns_pure ⟨f,h,hf.moved⟩)
  refine (updateFile_at h _).bind fun _ t ht => returns_file ht (returns_ite (fun _ => ?_) fun _ => ?_)
  · obtain ⟨b,hb⟩ := ht.context
    refine returns_context hb ?_
    rw [logPlus_eq hc (by decide),logPlus_eq hc (by decide)]
    refine returns_oneShl (by omega) (returns_shl32 (by omega) ?_)
    refine (updateFile_at ht _).bind fun _ u hu => (readBuffer_total E hu _).mono fun _ v hv => ?_
    obtain ⟨d,hv⟩ := hv
    exact ⟨_,hv,hnext rfl rfl rfl rfl⟩
  · exact returns_pure ⟨_,ht,⟨hf.clean,hf.cursor,hf.within⟩,rfl,(Nat.add_zero _).symm⟩

/-- Each byte that is read moves the file by one, whatever sector it comes from. -/
theorem readLoop_moves (E : Env) (hc : c.WellFormed) (n : ℕ) (h : At c N fe B f s) (hf : f.Loose) :
    (readLoop E fe n).Every s fun bytes t => ∃ g, At c N fe B g t ∧ f.Moved bytes.length g := by
  induction n generalizing s f with
  | zero => exact every_pure ⟨f,h,hf.moved⟩
  | succ n ih =>
    refine every_bind_of_ok (show Ext2.file fe s = .ok (f,s) by rw [Ext2.file,h.file]) ?_
    rw [hf.position]
    refine every_ite (fun _ => every_pure ⟨f,h,hf.moved⟩) fun hmore => every_ite (fun _ => ?_) fun hin => ?_
    · intro bytes t hrun
      cases hrun
    have hin : f.cursor < 512 := not_le.1 hin
    have hone : f.Moved 1 { f with cursor := f.cursor + 1 } := by
      have hplace : FileEnt.place { f with cursor := f.cursor + 1 } = f.place + 1 :=
        (Nat.add_assoc _ _ _).symm
      refine ⟨⟨hf.clean,hin,?_⟩,rfl,hplace⟩
      rw [hplace]
      exact not_le.1 hmore
    refine (updateFile_at h fun f => { f with cursor := f.cursor + 1 }).every.bind fun _ t ht => ?_
    have hnext : (if f.cursor + 1 = blockSize then nextSector E fe else pure false).Returns t fun _ u =>
        ∃ g, At c N fe B g u ∧ f.Moved 1 g := by
      refine returns_ite (fun hfull => ?_) fun _ => returns_pure ⟨_,ht,hone⟩
      refine (nextSector_moves E hc ht hone.loose hfull).mono fun _ u hu => ?_
      obtain ⟨g,hg,hmoved⟩ := hu
      exact ⟨g,hg,hone.trans hmoved⟩
    refine hnext.every.bind fun _ u hu => ?_
    obtain ⟨g,hg,hmoved⟩ := hu
    refine (ih hg hmoved.loose).bind fun rest v hv => every_pure ?_
    obtain ⟨g',hg',hmoved'⟩ := hv
    refine ⟨g',hg',?_⟩
    rw [List.length_cons,Nat.add_comm]
    exact hmoved.trans hmoved'

theorem readBytes_moves (E : Env) (hc : c.WellFormed) (n : ℕ) (h : At c N fe B f s) (hf : f.Loose) :
    (readBytes E fe n).Every s fun bytes t => ∃ g, At c N fe B g t ∧ f.Moved bytes.length g := by
  refine (readLoop_moves E hc n h hf).bind fun bytes t ht => ?_
  obtain ⟨g,hg,hmoved⟩ := ht
  have htime : (if 0 < bytes.length then updateAtime E fe else pure ()).Returns t fun _ u =>
      ∃ g, At c N fe B g u ∧ f.Moved bytes.length g := by
    refine returns_ite (fun _ => ?_) fun _ => returns_pure ⟨g,hg,hmoved⟩
    refine (time_at E hg).bind fun now u hu => (updateFile_at hu _).mono fun _ v hv => ⟨_,hv,?_⟩
    have hsize : (g.inode.setAtime now).iSize = g.inode.iSize := Inode.iSize_setAtime _ _
    have hloose := hmoved.loose
    exact ⟨⟨hloose.clean,hloose.cursor,hsize ▸ hloose.within⟩,hsize.trans hmoved.size,hmoved.place⟩
  exact htime.every.bind fun _ u hu => every_pure hu

/-- A record that is found has at least one byte. -/
theorem readRecord_moves (E : Env) (hc : c.WellFormed) (h : At c N fe B f s) (hf : f.Loose) :
    (readRecord E fe).Every s fun o t => ∃ g n, At c N fe B g t ∧ f.Moved n g ∧ (o ≠ none → 0 < n) := by
  have hde {t : Ext2State} {g : FileEnt} (ht : At c N fe B g t) (d : Ext2Dirent) :
      At c N fe B g { t with de := d } := ⟨ht.context,ht.size,ht.blocks,ht.file⟩
  have hread {k m : ℕ} {g : FileEnt} {t : Ext2State} (hg : At c N fe B g t) (hmoved : f.Moved k g) :
      (readBytes E fe m).Every t fun bytes u => ∃ g, At c N fe B g u ∧ f.Moved (k + bytes.length) g := by
    intro bytes u hu
    obtain ⟨g',hg',hmoved'⟩ := readBytes_moves E hc m hg hmoved.loose bytes u hu
    exact ⟨g',hg',hmoved.trans hmoved'⟩
  have hnone {k : ℕ} {g : FileEnt} {t : Ext2State} (hg : At c N fe B g t) (hmoved : f.Moved k g) :
      (pure none : Ext2M (Option ℤ)).Every t fun o t => ∃ g n, At c N fe B g t ∧ f.Moved n g ∧
        (o ≠ none → 0 < n) :=
    every_pure ⟨g,k,hg,hmoved,fun hne => absurd rfl hne⟩
  refine (hread h hf.moved).bind fun ino t ht => ?_
  obtain ⟨g,hg,hmoved⟩ := ht
  refine every_ite (fun _ => hnone hg hmoved) fun hfour => (hread hg hmoved).bind fun recLen t₂ ht => ?_
  have hsome : 0 < ino.length := by
    by_contra hzero
    obtain hzero : ino.length = 0 := by omega
    rw [hzero] at hfour
    exact hfour (by decide)
  obtain ⟨g₂,hg₂,hmoved₂⟩ := ht
  refine every_ite (fun _ => hnone hg₂ hmoved₂) fun _ => (hread hg₂ hmoved₂).bind fun nameLen t₃ ht => ?_
  obtain ⟨g₃,hg₃,hmoved₃⟩ := ht
  refine every_ite (fun _ => hnone hg₃ hmoved₃) fun _ => (hread hg₃ hmoved₃).bind fun fileType t₄ ht => ?_
  obtain ⟨g₄,hg₄,hmoved₄⟩ := ht
  refine every_ite (fun _ => hnone hg₄ hmoved₄) fun _ =>
    (every_modify (Q := fun _ t => At c N fe B g₄ t) (hde hg₄ _)).bind fun _ t₅ hg₅ => ?_
  refine every_ite (fun _ => (hread hg₅ hmoved₄).bind fun name t₆ ht => ?_) fun _ => hnone hg₅ hmoved₄
  obtain ⟨g₆,hg₆,hmoved₆⟩ := ht
  exact (every_modify (Q := fun _ t => At c N fe B g₆ t) (hde hg₆ _)).bind fun _ t₇ hg₇ =>
    every_pure ⟨g₆,_,hg₇,hmoved₆,fun _ => by omega⟩

/-- A seek goes to its target, or nowhere. -/
theorem lseek_moves (E : Env) (hc : c.WellFormed) (ptr : ℤ) (dir : Whence) (h : At c N fe B f s)
    (hf : f.Ready) : (lseek E (some fe) ptr dir).Returns s fun _ t => ∃ g, At c N fe B g t ∧ g.Ready ∧
      g.inode.iSize = f.inode.iSize ∧ (g.place = f.place ∨ g.place = target f ptr dir) := by
  have hsize := f.inode.iSize_lt
  have hflush {α : Type} {x : Ext2M α} {Q : α → Ext2State → Prop} (hx : x.Returns s Q) :
      (flush E fe >>= fun _ => x).Returns s Q := by
    refine returns_bind_of_ok (a := 0) (t := s) ?_ hx
    rw [flush,bind_of_ok (show Ext2.file fe s = .ok (f,s) by rw [Ext2.file,h.file]),hf.clean]
    rfl
  refine returns_file h ?_
  dsimp only
  rw [hf.position]
  generalize target f ptr dir = T
  have hstay : f.Ready ∧ f.inode.iSize = f.inode.iSize ∧ (f.place = f.place ∨ f.place = T) :=
    ⟨hf,rfl,.inl rfl⟩
  refine returns_ite (fun _ => returns_pure ⟨f,h,hstay⟩) fun hne => ?_
  refine returns_ite (fun _ => returns_pure ⟨f,h,hstay⟩) fun hwithin => ?_
  -- wherever the sector is set from the target, the file is there
  have hthere {g : FileEnt} (hinode : g.inode = f.inode) (hflags : g.flags = f.flags)
      (hsector : g.fileSector = T / blockSize) (hcursor : g.cursor = T % blockSize) :
      g.Ready ∧ g.inode.iSize = f.inode.iSize ∧ (g.place = f.place ∨ g.place = T) := by
    have hplace : g.place = T := by
      rw [FileEnt.place,hsector,hcursor]
      exact Nat.div_add_mod' T blockSize
    have hlt : g.cursor < 512 := by
      rw [hcursor]
      exact Nat.mod_lt _ (by decide)
    refine ⟨⟨⟨?_,hlt.le,?_⟩,fun hfull => absurd hfull hlt.ne⟩,by rw [hinode],.inr hplace⟩
    · rw [hflags]
      exact hf.clean
    · rw [hplace,hinode]
      exact not_lt.1 hwithin
  have hload {g : FileEnt} {t : Ext2State} (ht : At c N fe B g t) (hinode : g.inode = f.inode)
      (hflags : g.flags = f.flags) (hsector : g.fileSector = T / blockSize)
      (hcursor : g.cursor = T % blockSize) (x : ℕ) (n : ℤ) : (do
        if ← readBuffer E fe x then pure (ptr - 1,0) else pure (n,0) : Ext2M (ℤ × ℤ)).Returns t fun _ u =>
      ∃ g, At c N fe B g u ∧ g.Ready ∧ g.inode.iSize = f.inode.iSize ∧
        (g.place = f.place ∨ g.place = T) := by
    refine (readBuffer_total E ht x).bind fun _ u hu => ?_
    obtain ⟨d,hu⟩ := hu
    have hg := hthere (g := { g with buffer := d }) hinode hflags hsector hcursor
    exact returns_ite (fun _ => returns_pure ⟨_,hu,hg⟩) fun _ => returns_pure ⟨_,hu,hg⟩
  have hlog := hc.log
  obtain ⟨b,hb⟩ := h.context
  refine returns_ite (fun hsame => ?_) fun _ => returns_context hb ?_
  · have hsector : f.fileSector = T / blockSize := by
      have hbehind := hf.behind
      have hcursor := hf.cursor
      rw [← hsame]
      change _ = f.place / 512
      change f.place / 512 = T / 512 at hsame
      unfold FileEnt.place at *
      omega
    exact (updateFile_at h _).bind fun _ t ht => returns_pure ⟨_,ht,hthere rfl rfl hsector rfl⟩
  rw [logPlus_eq hc (by decide),logPlus_eq hc (by decide)]
  refine returns_oneShl (by omega) (returns_ite (fun _ => hflush ?_) fun _ => hflush ?_)
  · exact (updateFile_at h _).bind fun _ t ht => returns_file ht (hload ht rfl rfl rfl rfl _ _)
  refine returns_ite (fun _ => returns_pure ⟨f,h,hstay⟩) fun _ => returns_oneShl (by omega) ?_
  exact (updateFile_at h _).bind fun _ t ht => returns_file ht (hload ht rfl rfl rfl rfl _ _)

/-! ### Records that lead on -/

/-- The record that is read next lies in the sectors the file is led through, and the seek behind it does
not lead back to it or before it. -/
def Forward (E : Env) (fe : ℕ) (s : Ext2State) : Prop :=
  (readRecord E fe).Returns s fun o t => ∀ ptr, o = some ptr →
    ∃ f g, s.files fe = some f ∧ t.files fe = some g ∧ (g.cursor = 512 → g.inode.iSize ≤ position g) ∧
      position f < target g ptr .cur

/-- Such a record is left behind. -/
theorem readdir_forward (hc : c.WellFormed) (e : ℤ) (h : At c N fe B f s) (hf : f.Ready)
    (hforward : Forward E fe s) : (readdir E (some fe) e).Returns s fun p t => ∃ g, At c N fe B g t ∧
      (p.1 = true → g.Ready ∧ g.inode.iSize = f.inode.iSize ∧ f.place < g.place) := by
  rw [readdir_eq]
  obtain ⟨o,t,hrun,hnext⟩ := hforward
  refine returns_bind_of_ok hrun ?_
  obtain ⟨g,n,hg,hmoved,hpos⟩ := readRecord_moves E hc h hf.toLoose o t hrun
  cases o with
  | none => exact returns_pure ⟨g,hg,fun h => absurd h Bool.false_ne_true⟩
  | some ptr =>
    obtain ⟨f',g',hf',hg',hbehind,hlt⟩ := hnext ptr rfl
    obtain rfl : f = f' := Option.some.inj (h.file.symm.trans hf')
    obtain rfl : g = g' := Option.some.inj (hg.file.symm.trans hg')
    rw [hmoved.loose.position] at hbehind
    rw [hf.position] at hlt
    have hready : g.Ready := ⟨hmoved.loose,fun hfull => le_antisymm hmoved.loose.within (hbehind hfull)⟩
    refine (lseek_moves E hc ptr .cur hg hready).bind fun p u hu => returns_pure ?_
    obtain ⟨g',hg',hready',hsize,hplace⟩ := hu
    refine ⟨g',hg',fun _ => ⟨hready',hsize.trans hmoved.size,?_⟩⟩
    have hread := hmoved.place
    have hsome := hpos (by simp)
    rcases hplace with hplace | hplace <;> omega

/-! ### A lookup as a sequence of records -/

/-- One call of `ext2_readdir` in a lookup: the elements from the one searched for on and the state before
the call lead to the next search. -/
inductive Turn (E : Env) (fe : ℕ) : List (List UInt8) × Ext2State → List (List UInt8) × Ext2State → Prop
  | next {element : List UInt8} {rest : List (List UInt8)} {s t : Ext2State} {e e' : ℤ}
      (read : readdir E (some fe) e s = .ok ((true,e'),t)) (other : t.de.name ≠ element) :
      Turn E fe (element :: rest,s) (element :: rest,t)
  | down {element : List UInt8} {rest : List (List UInt8)} {s t u : Ext2State} {e e' r : ℤ}
      (read : readdir E (some fe) e s = .ok ((true,e'),t)) (found : t.de.name = element)
      (opened : openInode E fe t.de.dIno t = .ok (r,u)) : Turn E fe (element :: rest,s) (rest,u)

/-- Every record the lookup comes to leads on. -/
def Advances (E : Env) (fe : ℕ) (elements : List (List UInt8)) (s : Ext2State) : Prop :=
  ∀ element rest t, Relation.ReflTransGen (Turn E fe) (elements,s) (element :: rest,t) → Forward E fe t

theorem Advances.turn {elements elements' : List (List UInt8)} (h : Advances E fe elements s)
    (hturn : Turn E fe (elements,s) (elements',t)) : Advances E fe elements' t := by
  intro element rest u hu
  exact h element rest u (.head hturn hu)

/-- The search of a directory ends: the bytes that are left become fewer with every record. -/
theorem findEntry_ends (hc : c.WellFormed) {element : List UInt8} {rest : List (List UInt8)} (n : ℕ) (e : ℤ)
    (h : At c N fe B f s) (hf : f.Ready) (hadvances : Advances E fe (element :: rest) s)
    (hn : f.inode.iSize - f.place < n) : (findEntry E fe element n e).Returns s fun p t =>
      (∃ g, At c N fe B g t) ∧ ∀ m, p.1 = some m → ∀ r u, openInode E fe m t = .ok (r,u) →
        Advances E fe rest u := by
  induction n generalizing s f e with
  | zero => omega
  | succ n ih =>
    obtain ⟨p,t,hrun,g,hg,hnext⟩ := readdir_forward hc e h hf (hadvances element rest s .refl)
    obtain ⟨found,e'⟩ := p
    rw [findEntry]
    refine returns_bind_of_ok hrun (returns_ite (fun htrue => returns_bind_of_ok rfl ?_) fun _ => ?_)
    · obtain rfl : found = true := htrue
      obtain ⟨hready,hsize,hplace⟩ := hnext rfl
      have hwithin := hready.within
      refine returns_ite (fun hname => returns_pure ⟨⟨g,hg⟩,fun m hm r u hu => ?_⟩) fun hname => ?_
      · obtain rfl : t.de.dIno = m := Option.some.inj hm
        exact hadvances.turn (.down hrun hname hu)
      · exact ih e' hg hready (hadvances.turn (.next hrun hname)) (by omega)
    · exact returns_pure ⟨⟨g,hg⟩,fun m hm => absurd hm (by simp)⟩

/-- Whatever inode is opened, the file stands at its first byte. -/
theorem openInode_ready (E : Env) (hc : c.WellFormed) (n : ℤ) (h : At c N fe B f s) :
    (openInode E fe n).Returns s fun r t => r = 0 ∧ ∃ g, At c N fe B g t ∧ g.Ready := by
  have hlog := hc.log
  refine (loadInodeBlock_any E hc n h).bind fun p t ht => ?_
  obtain ⟨hat,d,hd⟩ := ht
  refine returns_context hd ((updateFile_at hat _).bind fun _ u hu => returns_file hu ?_)
  rw [logPlus_eq hc (by decide)]
  refine returns_shl32 (by omega) ((readBuffer_total E hu _).bind fun _ v hv => ?_)
  obtain ⟨b,hv⟩ := hv
  refine returns_oneShl (by omega) ((updateFile_at hv _).bind fun _ w hw => returns_pure ⟨rfl,_,hw,?_⟩)
  refine ⟨⟨rfl,Nat.zero_le _,by simp [FileEnt.place]⟩,fun hfull => ?_⟩
  exact absurd (show 0 = 512 from hfull) (by decide)

theorem lookupLoop_ends (hc : c.WellFormed) (hfuel : 2^32 ≤ E.fuel) (elements : List (List UInt8)) (n e : ℤ)
    (h : At c N fe B f s) (hadvances : ∀ r t, openInode E fe n s = .ok (r,t) → Advances E fe elements t) :
    (lookupLoop E fe elements n e).Returns s fun p _ => p.1 = 0 ∨ p.1 = -1 := by
  induction elements generalizing n e s f with
  | nil => exact (openInode_ready E hc n h).bind fun r t ht => returns_pure (.inl ht.1)
  | cons element rest ih =>
    obtain ⟨r,t,hrun,-,g,hg,hready⟩ := openInode_ready E hc n h
    refine returns_bind_of_ok hrun ?_
    have hsize := g.inode.iSize_lt
    refine (findEntry_ends hc E.fuel e hg hready (hadvances r t hrun) (by omega)).bind fun p u hu => ?_
    obtain ⟨o,e'⟩ := p
    obtain ⟨⟨g',hg'⟩,hdown⟩ := hu
    cases o with
    | none => exact returns_pure (.inr rfl)
    | some m => exact ih m e' hg' (hdown m rfl)

/-- On any volume, whatever fails: a lookup that comes only to records that lead on returns, with zero or
`-1`. -/
theorem lookupPath_ends (hc : c.WellFormed) (hfuel : 2^32 ≤ E.fuel) (path : List UInt8) (e : ℤ)
    (h : At c N fe B f s) (hadvances : ∀ r t, openInode E fe ext2RootIno s = .ok (r,t) →
      Advances E fe ((pathElements (path.take (maxExt2PathLen - 1))).take maxPathLevels) t) :
    (lookupPath E fe path e).Returns s fun p _ => p.1 = 0 ∨ p.1 = -1 :=
  lookupLoop_ends hc hfuel _ _ e h hadvances

/-! ### The small volume -/

section NoFault
variable {nb size pos : ℕ} {K : ℕ → ℕ} (hE : E.NoFault) (hc : c.WellFormed) (hd : c.Direct K nb N)
include hE hc hd

theorem readBytes_visits (n : ℕ) (h : At c N fe B f s) (hr : f.Visits c B K nb size pos)
    (hsize : size ≤ nb * c.sectors * 512)
    (hends : ∀ p, pos < p → p ≤ pos + n → p < size → p % (c.sectors * 512) ≠ 0) :
    (readBytes E fe n).Returns s fun bytes t => bytes = ((c.fileContent B K size).drop pos).take n ∧
      ∃ g, At c N fe B g t ∧ g.Visits c B K nb size (pos + bytes.length) := by
  obtain ⟨p,t,hrun,hbytes,-,g,hg,hvisits,-⟩ := read_visits hE hc hd n 0 h hr hsize (.inr hends)
  rw [read_eq] at hrun
  obtain ⟨bytes,u,hu,hp⟩ := bind_ok hrun
  obtain ⟨rfl,rfl⟩ : (i32 bytes.length,0,bytes) = p ∧ u = t := by simpa using hp
  exact ⟨bytes,u,hu,hbytes,g,hg,hvisits⟩

omit hE hc hd in
/-- A seek within a sector, forward or back. -/
theorem lseek_inside {ptr : ℤ} {dir : Whence} {T : ℕ} (h : At c N fe B f s)
    (hr : f.Visits c B K nb size pos) (hpos : pos < size) (htarget : target f ptr dir = T)
    (hsame : pos / 512 = T / 512) (hT : T < size) :
    (lseek E (some fe) ptr dir).Returns s fun _ t => ∃ g, At c N fe B g t ∧ g.Visits c B K nb size T := by
  obtain ⟨hcursor,hnear⟩ := hr.ready hpos
  have hposition := hr.position
  have hlimit := hr.length ▸ f.inode.iSize_lt
  have hplace : position f = pos := by
    rw [FileEnt.position_eq (by omega),hposition]
  refine returns_file h ?_
  dsimp only
  rw [hplace,htarget,hr.length]
  refine returns_ite (fun heq => returns_pure ⟨f,h,heq ▸ hr⟩) fun _ => ?_
  refine returns_ite (fun hbeyond => absurd hbeyond (by omega)) fun _ => ?_
  refine returns_ite (fun _ => ?_) fun hother => absurd hsame hother
  refine (updateFile_at h _).bind fun _ t ht => returns_pure ⟨_,ht,?_⟩
  refine ⟨hr.clean,hr.blocks,hr.length,?_,?_,fun _ => ?_⟩
  · change f.fileSector * 512 + T % 512 = T
    omega
  · have hinside := hnear.inside
    omega
  · exact ⟨Nat.mod_lt _ (by decide),hnear.1,hnear.2,hnear.3,hnear.4,hnear.5,hnear.6⟩

end NoFault

/-- Nothing fails, the clock stands, and loops may go on for so long. -/
abbrev steadyEnv (fuel : ℕ) : Env := Env.calm (fun _ => 90) fuel

/-- The root holds one record without a name, whose length is zero. -/
def stuckExt2 : ℕ → Sector := Function.update smallExt2 10 (Sector.ofBytes [3])

def stuckHeap : Ext2State := { smallHeap with dev := ⟨stuckExt2,16,0,[]⟩ }

/-- The root is open at its first byte. -/
def Stuck (s : Ext2State) : Prop := ∃ f, At smallContext 16 0 stuckExt2 f s ∧
  f.Visits smallContext stuckExt2 (smallContext.inodeAt stuckExt2 2).iBlock 1 1024 0

theorem stuckExt2_direct : smallContext.Direct (smallContext.inodeAt stuckExt2 2).iBlock 1 16 := by
  have hblock : (smallContext.inodeAt stuckExt2 2).iBlock 0 = 5 := by decide +kernel
  refine ⟨by decide,fun j hj => ?_,fun j hj => ?_,by decide⟩ <;> obtain rfl : j = 0 := by omega
  · rw [hblock]
    decide
  · rw [hblock]
    decide +kernel

/-- After every call of `ext2_readdir` the root is where it was. -/
theorem stuck_readdir {k : ℕ} (e : ℤ) (h : Stuck s) :
    (readdir (steadyEnv k) (some 0) e).Returns s fun p t => p.1 = true ∧ t.de.name = [] ∧ Stuck t := by
  obtain ⟨f,hf,hvisits⟩ := h
  have hE : (steadyEnv k).NoFault := ⟨fun _ => rfl,fun _ => rfl,fun _ => rfl⟩
  have hbytes (n p : ℕ) {g : FileEnt} {t : Ext2State} (hn : p + n < 512)
      (hg : At smallContext 16 0 stuckExt2 g t) (hr : g.Visits smallContext stuckExt2
        (smallContext.inodeAt stuckExt2 2).iBlock 1 1024 p) :=
    readBytes_visits hE smallContext_wellFormed stuckExt2_direct n hg hr (by decide +kernel)
      fun q _ _ _ => by
      rw [smallExt2_sectors]
      omega
  have hde {t : Ext2State} {g : FileEnt} (ht : At smallContext 16 0 stuckExt2 g t) (d : Ext2Dirent) :
      At smallContext 16 0 stuckExt2 g { t with de := d } := ⟨ht.context,ht.size,ht.blocks,ht.file⟩
  have hrecord : (readRecord (steadyEnv k) 0).Returns s fun o t => o = some (-8) ∧ t.de.name = [] ∧
      ∃ g, At smallContext 16 0 stuckExt2 g t ∧
        g.Visits smallContext stuckExt2 (smallContext.inodeAt stuckExt2 2).iBlock 1 1024 8 := by
    refine (hbytes 4 0 (by decide) hf hvisits).bind fun ino t ht => ?_
    obtain ⟨hino,g,hg,hr⟩ := ht
    obtain rfl : ino = [3,0,0,0] := hino.trans (by decide +kernel)
    refine returns_ite (fun h => absurd h (by decide)) fun _ => ?_
    refine (hbytes 2 4 (by decide) hg hr).bind fun len t₂ ht => ?_
    obtain ⟨hlen,g₂,hg₂,hr₂⟩ := ht
    obtain rfl : len = [0,0] := hlen.trans (by decide +kernel)
    refine returns_ite (fun h => absurd h (by decide)) fun _ => ?_
    refine (hbytes 1 6 (by decide) hg₂ hr₂).bind fun n t₃ ht => ?_
    obtain ⟨hn,g₃,hg₃,hr₃⟩ := ht
    obtain rfl : n = [0] := hn.trans (by decide +kernel)
    refine returns_ite (fun h => absurd h (by decide)) fun _ => ?_
    refine (hbytes 1 7 (by decide) hg₃ hr₃).bind fun y t₄ ht => ?_
    obtain ⟨hy,g₄,hg₄,hr₄⟩ := ht
    obtain rfl : y = [0] := hy.trans (by decide +kernel)
    refine returns_ite (fun h => absurd h (by decide)) fun _ => ?_
    refine (returns_modify (Q := fun _ t => At smallContext 16 0 stuckExt2 g₄ t)
      (hde hg₄ _)).bind fun _ t₅ hg₅ => ?_
    refine returns_ite (fun _ => ?_) fun h => absurd (by decide +kernel) h
    refine (hbytes 0 8 (by decide) hg₅ hr₄).bind fun name t₆ ht => ?_
    obtain ⟨hname,g₆,hg₆,hr₆⟩ := ht
    obtain rfl : name = [] := hname.trans (List.take_zero)
    refine (returns_modify (Q := fun _ t => At smallContext 16 0 stuckExt2 g₆ t ∧ t.de.name = [])
      ⟨hde hg₆ _,?_⟩).bind fun _ t₇ ht => returns_pure ⟨by decide +kernel,ht.2,g₆,ht.1,hr₆⟩
    exact Ext2Dirent.name_eq (by decide) (by simp) rfl (by simp)
  rw [readdir_eq]
  refine hrecord.bind fun o t ht => ?_
  obtain ⟨rfl,hname,g,hg,hr⟩ := ht
  have htarget : target g (-8) .cur = 0 := by
    have hposition := hr.position
    rw [target]
    have hback : ((g.fileSector * blockSize + g.cursor : ℕ) : ℤ) + -8 = ((0 : ℕ) : ℤ) := by
      change ((g.fileSector * 512 + g.cursor : ℕ) : ℤ) + -8 = _
      omega
    push_cast at hback ⊢
    rw [hback]
    rfl
  refine ((lseek_inside hg hr (by decide) htarget (by decide) (by decide)).keeps
    (lseek_sameEntry _ 0 _ _)).bind fun p u hu => returns_pure ⟨rfl,?_,hu.1⟩
  rw [hu.2]
  exact hname

/-- The lookup of `"/B"` reads that record again and again. -/
theorem lookup_stuck (k : ℕ) : lookupPath (steadyEnv k) 0 [0x2F,0x42] 0 stuckHeap =
    .error .fuel := by
  have hfind (n : ℕ) (e : ℤ) {s : Ext2State} (h : Stuck s) :
      findEntry (steadyEnv k) 0 [0x42] n e s = .error .fuel := by
    induction n generalizing s e with
    | zero => rfl
    | succ n ih =>
      obtain ⟨p,t,hrun,hfound,hname,hstuck⟩ := stuck_readdir (k := k) e h
      obtain ⟨found,e'⟩ := p
      obtain rfl : found = true := hfound
      rw [findEntry,bind_of_ok hrun]
      change (if t.de.name = [0x42] then pure (some t.de.dIno,e')
        else findEntry _ 0 [0x42] n e' : Ext2M _) t = _
      rw [hname,if_neg (by decide)]
      exact ih e' hstuck
  have hE : (steadyEnv k).NoFault := ⟨fun _ => rfl,fun _ => rfl,fun _ => rfl⟩
  have hopen : (openInode (steadyEnv k) 0 ext2RootIno).Returns stuckHeap fun _ t => Stuck t := by
    have hholds : smallContext.Holds stuckExt2 ext2RootIno 16 :=
      ⟨by decide +kernel,by decide +kernel,by decide +kernel⟩
    have hat : At smallContext 16 0 stuckExt2 .zero stuckHeap := ⟨⟨.zero,rfl⟩,rfl,rfl,rfl⟩
    refine (openInode_at hE smallContext_wellFormed hholds hat).mono fun _ t ht => ?_
    obtain ⟨-,b,ht,hbuffer⟩ := ht
    have hreads := opened_reads (opened smallContext stuckExt2 ext2RootIno b).flags stuckExt2_direct
      (fun _ _ => rfl) (show _ = 1024 by decide +kernel) (by decide +kernel) hbuffer
    exact ⟨_,ht,(hreads.visits rfl).1⟩
  obtain ⟨r,t,hrun,hstuck⟩ := hopen
  have helements : (pathElements ([0x2F,0x42].take (maxExt2PathLen - 1))).take maxPathLevels =
      [[0x42]] := by decide
  rw [lookupPath,helements,lookupLoop,bind_of_ok hrun]
  exact bind_of_error (hfind _ _ hstuck)

/-- However long it may go on, it does not return. -/
theorem lookup_never_ends :
    ¬ ∃ k, (lookupPath (steadyEnv k) 0 [0x2F,0x42] 0).Returns stuckHeap fun _ _ => True := by
  rintro ⟨k,p,t,hrun,-⟩
  rw [lookup_stuck] at hrun
  cases hrun

/-- The root of the small volume has one record, and it leads on to the end of the block. -/
theorem smallRoot_advances {r : ℤ} (h : openInode (steadyEnv (2^32)) 0 ext2RootIno smallHeap = .ok (r,t)) :
    Advances (steadyEnv (2^32)) 0 [[0x41]] t := by
  have hrun : Prog.test (openInode (steadyEnv (2^32)) 0 ext2RootIno) smallHeap (fun _ t =>
      Prog.test (readRecord (steadyEnv (2^32)) 0) t fun o u => o == some 1015 && u.de.name == [0x41] &&
        ((t.files 0).bind fun f => (u.files 0).map fun g => g.cursor != 512 &&
          decide (position f < target g 1015 .cur)) == some true) = true := by decide +kernel
  obtain ⟨r',t',ht,hrun⟩ := ok_of_test hrun
  obtain ⟨rfl,rfl⟩ : r' = r ∧ t' = t := by
    rw [ht] at h
    simpa using h
  obtain ⟨o,u,hu,hrun⟩ := ok_of_test hrun
  simp only [Bool.and_eq_true,beq_iff_eq,Option.bind_eq_some_iff,Option.map_eq_some_iff,bne_iff_ne,
    decide_eq_true_eq] at hrun
  obtain ⟨⟨rfl,hname⟩,f,hf,g,hg,hcursor,hlt⟩ := hrun
  have hforward : Forward (steadyEnv (2^32)) 0 t' := by
    refine ⟨_,u,hu,fun ptr hptr => ⟨f,g,hf,hg,fun hfull => absurd hfull hcursor,?_⟩⟩
    obtain rfl : 1015 = ptr := Option.some.inj hptr
    exact hlt
  have hentry {e e' : ℤ} {found : Bool} {v : Ext2State}
      (hread : readdir (steadyEnv (2^32)) (some 0) e t' = .ok ((found,e'),v)) : v.de.name = [0x41] := by
    rw [readdir_eq,bind_of_ok hu] at hread
    obtain ⟨p,w,hw,hread⟩ := bind_ok hread
    have hde := lseek_sameEntry _ 0 _ _ _ _ _ hw
    obtain ⟨-,rfl⟩ : (true,p.2) = (found,e') ∧ w = v := by simpa using hread
    rw [hde]
    exact hname
  intro element rest v hv
  rcases hv.cases_head with heq | ⟨next,hturn,hv⟩
  · cases heq
    exact hforward
  · cases hturn with
    | next read other => exact absurd (hentry read) other
    | down read found opened =>
      rcases hv.cases_head with heq | ⟨next,hturn,-⟩
      · cases heq
      · cases hturn

theorem smallPath_ends : (lookupPath (steadyEnv (2^32)) 0 smallPath 0).Returns smallHeap fun p _ =>
    p.1 = 0 ∨ p.1 = -1 := by
  have helements : (pathElements (smallPath.take (maxExt2PathLen - 1))).take maxPathLevels = [[0x41]] := by
    decide
  refine lookupPath_ends smallContext_wellFormed le_rfl smallPath 0 smallHeap_at fun r t ht => ?_
  rw [helements]
  exact smallRoot_advances ht

end Ext2

end Gristle
