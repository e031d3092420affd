import Gristle.LookupPath
import Gristle.ReadErrors

/-! Listing a directory: the slots `fat_get_next_dirent` reaches one after the other, beside the slot a
lookup opens. -/
namespace Gristle
open Prog

/-! ### The slots of a directory -/

/-- The slots of these blocks in the order of the disk. -/
def slots (secs : List ℕ) : List (ℕ × ℕ) := secs.flatMap fun b => (List.range 16).map fun i => (b,i)

/-- The slots before the first empty one. -/
def entries (B : ℕ → Sector) (l : List (ℕ × ℕ)) : List (ℕ × ℕ) :=
  l.takeWhile fun p => ¬ (B p.1).emptyAt p.2

/-- The entries a listing does not pass over. -/
def listed (B : ℕ → Sector) (l : List (ℕ × ℕ)) : List (ℕ × ℕ) :=
  (entries B l).filter fun p => !((B p.1).dirent p.2).isSkipped

@[simp] theorem slots_length (secs : List ℕ) : (slots secs).length = 16 * secs.length := by
  induction secs with
  | nil => rfl
  | cons b bs ih =>
    have hcons : slots (b :: bs) = ((List.range 16).map fun i => (b,i)) ++ slots bs := rfl
    rw [hcons,List.length_append,ih,List.length_map,List.length_range,List.length_cons]
    omega

theorem slots_getElem? {secs : List ℕ} {q j : ℕ} (hq : q < secs.length) (hj : j < 16) :
    (slots secs)[16*q + j]? = some (secs.getD q 0,j) := by
  induction secs generalizing q with
  | nil => simp at hq
  | cons b bs ih =>
    have hcons : slots (b :: bs) = ((List.range 16).map fun i => (b,i)) ++ slots bs := rfl
    rw [hcons]
    cases q with
    | zero =>
      rw [List.getElem?_append_left (by simpa using hj)]
      simp [hj]
    | succ q =>
      rw [List.getElem?_append_right (by simp; omega)]
      have hindex : 16*(q+1) + j - ((List.range 16).map fun i => (b,i)).length = 16*q + j := by
        simp
        omega
      rw [hindex,ih (by simpa using hq),List.getD_cons_succ]

/-- What lies ahead of a position starts with the slot there. -/
theorem slots_drop {secs : List ℕ} {q j : ℕ} (hq : q < secs.length) (hj : j < 16) :
    (slots secs).drop (16*q + j) = (secs.getD q 0,j) :: (slots secs).drop (16*q + j + 1) := by
  have hlt : 16*q + j < (slots secs).length := by
    rw [slots_length]
    omega
  have hget := slots_getElem? hq hj
  rw [List.getElem?_eq_getElem hlt] at hget
  rw [List.drop_eq_getElem_cons hlt,Option.some.inj hget]

theorem Env.Ample.slots {E : Env} {g : FatInfo} (hE : E.Ample g) {size : ℕ} (hg : g.Valid size)
    {B : ℕ → Sector} {c : ℕ} {secs : List ℕ} (h : g.Scanned B c secs) : (slots secs).length < E.fuel := by
  have hlen := h.length_le hg
  have hmul := Nat.mul_le_mul (Nat.sub_le g.entries 2) (Nat.le_refl g.sectorsPerCluster)
  rw [FatInfo.span,List.length_range] at hlen
  unfold Env.Ample at hE
  rw [slots_length]
  omega

/-- The first entry of a block that a search has gone through, or else of those behind it. -/
def SlotSearch.orElse (b : ℕ) : SlotSearch → Option (ℕ × ℕ) → Option (ℕ × ℕ)
  | .last, _ => none
  | .found k, _ => some (b,k)
  | .absent, rest => rest

/-- The search of a lookup finds the first entry that carries the name. -/
theorem searchBlocks_eq_find (n : ℕ → UInt8) (B : ℕ → Sector) (secs : List ℕ) :
    searchBlocks n B secs = (entries B (slots secs)).find? fun p => (B p.1).carries n p.2 := by
  have hblock (b : ℕ) (l : List (ℕ × ℕ)) (m i : ℕ) :
      (entries B ((List.range' i m).map (fun i => (b,i)) ++ l)).find? (fun p => (B p.1).carries n p.2) =
        (searchSlots n (B b) m i).orElse b ((entries B l).find? fun p => (B p.1).carries n p.2) := by
    induction m generalizing i with
    | zero => rfl
    | succ m ih =>
      rw [List.range'_succ,List.map_cons,List.cons_append,searchSlots]
      by_cases hempty : (B b).emptyAt i
      · rw [if_pos (show (B b).get (32*i) = 0 from hempty)]
        simp [entries,hempty,SlotSearch.orElse]
      rw [if_neg (show ¬ (B b).get (32*i) = 0 from hempty)]
      by_cases hcarries : (B b).carries n i
      · rw [if_pos (show strncmpEq n _ 11 0 = true from hcarries)]
        simp [entries,hempty,hcarries,SlotSearch.orElse]
      rw [if_neg (show ¬ strncmpEq n _ 11 0 = true from hcarries),← ih (i+1)]
      simp [entries,hempty,hcarries]
  induction secs with
  | nil => rfl
  | cons b bs ih =>
    have hcons : slots (b :: bs) = ((List.range' 0 16).map fun i => (b,i)) ++ slots bs := rfl
    rw [hcons,hblock,searchBlocks,ih]
    cases searchSlots n (B b) 16 0 <;> rfl

/-! ### Reading records -/

/-- A descriptor that lists a directory, with the slots from `p` on ahead of it. -/
structure FileS.ListsAt (g : FatInfo) (B : ℕ → Sector) (c p : ℕ) (f : FileS) : Prop where
  open_ : f.flags.open_ = true
  read : f.flags.read = true
  write : f.flags.write = false
  clean : f.flags.dirty = false
  subdir : f.isSubdir = true
  loaded : f.Loaded B
  place : ∃ q j, f.Stands g B c q ∧ j ≤ 16 ∧ f.cursor = 32*j ∧ p = 16*q + j

theorem FileS.Stands.cursor {g : FatInfo} {B : ℕ → Sector} {c q : ℕ} {f : FileS}
    (h : f.Stands g B c q) (k : ℕ) : FileS.Stands g B c q { f with cursor := k } :=
  h.imp_right fun ⟨cs,hcs,h⟩ => ⟨cs,hcs,⟨h.inside,h.cluster,h.sector,h.left⟩⟩

/-- Reading on in the buffer. -/
theorem readLoop_within {E : Env} {fd : Fd} {n : ℕ} {s : FatState}
    (hsub : (s.fileNum fd).isSubdir = true) (hn : (s.fileNum fd).cursor + n ≤ 512) :
    (readLoop E fd n).Returns s fun bytes t =>
      After fd s t s.dev.blocks { s.fileNum fd with cursor := (s.fileNum fd).cursor + n } ∧
      bytes = (List.range n).map fun k => (s.fileNum fd).buffer.get ((s.fileNum fd).cursor + k) := by
  induction n generalizing s with
  | zero => exact returns_pure ⟨After.refl s,rfl⟩
  | succ n ih =>
    refine returns_file (returns_ite (by simp [hsub]) fun _ => ?_)
    have hne : (s.fileNum fd).cursor ≠ blockSize := by
      change _ ≠ 512
      omega
    rw [if_neg hne]
    refine returns_bind_of_ok rfl (returns_ite (by simp) fun _ => returns_file ?_)
    refine (updateFile_returns fd _ s).bind fun _ t ht => ?_
    have hrest := @ih t (by rw [ht.file]; exact hsub) (by rw [ht.file]; dsimp only; omega)
    rw [ht.file,ht.blocks] at hrest
    refine hrest.bind fun bytes u hu => returns_pure ?_
    obtain ⟨hu,rfl⟩ := hu
    dsimp only at hu
    rw [show (s.fileNum fd).cursor + 1 + n = (s.fileNum fd).cursor + (n+1) by omega] at hu
    refine ⟨ht.trans hu,?_⟩
    rw [List.range_succ_eq_map,List.map_cons,List.map_map,Nat.add_zero]
    refine congrArg _ (List.map_congr_left fun k _ => ?_)
    simp only [Function.comp_apply,Nat.succ_eq_add_one]
    rw [show (s.fileNum fd).cursor + 1 + k = (s.fileNum fd).cursor + (k+1) by omega]

/-- The bytes of a slot. -/
def recordOf (B : ℕ → Sector) (p : ℕ × ℕ) : List UInt8 :=
  (List.range 32).map fun k => (B p.1).get (32*p.2 + k)

theorem direntOfBytes_recordOf (B : ℕ → Sector) (p : ℕ × ℕ) :
    direntOfBytes (recordOf B p) = (B p.1).dirent p.2 := by
  refine dirent_congr fun k hk => ?_
  rw [Sector.get_splice,if_pos ⟨by omega,by omega,by change _ < 512; omega⟩]
  simp [recordOf,List.getD_eq_getElem?_getD,hk]

section NoFault
variable {E : Env} (hE : E.NoFault)
include hE

/-- Reading 32 bytes of a directory: the next slot, or nothing at the end. -/
theorem readLoop_record {fd : Fd} {s : FatState} {c p : ℕ} {secs : List ℕ}
    (hg : s.fatfs.Valid s.dev.size) (h : s.fatfs.Scanned s.dev.blocks c secs)
    (hl : (s.fileNum fd).ListsAt s.fatfs s.dev.blocks c p) :
    (readLoop E fd 32).Returns s fun bytes t => After fd s t s.dev.blocks (t.fileNum fd) ∧
      match (slots secs).drop p with
      | [] => bytes = []
      | x :: rest => bytes = recordOf s.dev.blocks x ∧ rest = (slots secs).drop (p+1) ∧
        (t.fileNum fd).ListsAt s.fatfs s.dev.blocks c (p+1) ∧ (t.fileNum fd).sector = x.1 ∧
        (t.fileNum fd).cursor = 32*(x.2+1) := by
  have hinside {u : FatState} {q j : ℕ} (hu : After fd s u s.dev.blocks (u.fileNum fd))
      (hlu : (u.fileNum fd).ListsAt s.fatfs s.dev.blocks c p) (hst : (u.fileNum fd).Stands s.fatfs s.dev.blocks c q)
      (hj : j < 16) (hcursor : (u.fileNum fd).cursor = 32*j) (hp : p = 16*q + j) :
      (readLoop E fd 32).Returns u fun bytes t => After fd s t s.dev.blocks (t.fileNum fd) ∧
        match (slots secs).drop p with
        | [] => bytes = []
        | x :: rest => bytes = recordOf s.dev.blocks x ∧ rest = (slots secs).drop (p+1) ∧
          (t.fileNum fd).ListsAt s.fatfs s.dev.blocks c (p+1) ∧ (t.fileNum fd).sector = x.1 ∧
          (t.fileNum fd).cursor = 32*(x.2+1) := by
    obtain ⟨hq,hsector⟩ := h.stands hg hst
    refine (readLoop_within hlu.subdir (by omega)).mono fun bytes t ht => ?_
    obtain ⟨ht,rfl⟩ := ht
    rw [hu.blocks,hcursor] at ht
    refine ⟨(hu.trans ht).self,?_⟩
    rw [hp,slots_drop hq hj,hsector,ht.file]
    have hload : (u.fileNum fd).buffer = s.dev.blocks (u.fileNum fd).sector := hlu.loaded
    refine ⟨?_,rfl,⟨hlu.open_,hlu.read,hlu.write,hlu.clean,hlu.subdir,hlu.loaded,q,j+1,hst.cursor _,
      by omega,by dsimp only; omega,by omega⟩,rfl,by dsimp only; omega⟩
    rw [recordOf,hload,hcursor]
  obtain ⟨q,j,hst,hj,hcursor,hp⟩ := hl.place
  rcases Nat.lt_or_eq_of_le hj with hj | rfl
  · exact hinside (After.refl s) hl hst hj hcursor hp
  have hfull : (s.fileNum fd).cursor = blockSize := hcursor
  have hnext := @fatNextSectorWith_scanned E hE (fatFlushFileinfo E) fd s c q secs hg h hst hl.clean
    (.inr hl.write)
  refine returns_file (returns_ite (by simp [hl.subdir]) fun _ => ?_)
  rw [if_pos hfull]
  refine hnext.bind fun failed t ht => ?_
  obtain ⟨ha,hstill,hflags,hmoved⟩ := ht
  by_cases hin : q + 1 < secs.length
  · rw [if_pos hin] at hmoved
    obtain ⟨rfl,hst',hload,hzero,-⟩ := hmoved
    have hsub := (FileS.field_of_still FileS.isSubdir (fun _ => rfl) hstill).trans hl.subdir
    have hlt : (t.fileNum fd).ListsAt s.fatfs s.dev.blocks c p :=
      ⟨by rw [hflags]; exact hl.open_,by rw [hflags]; exact hl.read,by rw [hflags]; exact hl.write,
        by rw [hflags]; exact hl.clean,hsub,hload,q+1,0,hst',by omega,hzero,by omega⟩
    have hrest := @hinside t (q+1) 0 ha hlt hst' (by omega) hzero (by omega)
    have hne : (t.fileNum fd).cursor ≠ blockSize := by
      rw [hzero]
      decide
    rw [Returns,readLoop,bind_of_ok rfl,run_ite,if_neg (by simp [hsub]),if_neg hne,bind_of_ok rfl] at hrest
    exact returns_ite (by simp) fun _ => hrest
  · rw [if_neg hin] at hmoved
    subst hmoved
    refine returns_ite (fun _ => returns_pure ⟨ha,?_⟩) (by simp)
    have hq := (h.stands hg hst).1
    rw [List.drop_eq_nil_of_le (by rw [slots_length]; omega)]

/-- `fat_read` of a record of a directory. -/
theorem fatRead_record {fd : Fd} {s : FatState} {c p : ℕ} {secs : List ℕ}
    (hg : s.fatfs.Valid s.dev.size) (h : s.fatfs.Scanned s.dev.blocks c secs)
    (hl : (s.fileNum fd).ListsAt s.fatfs s.dev.blocks c p) :
    (fatRead E fd.val 32).Returns s fun a t => After fd s t s.dev.blocks (t.fileNum fd) ∧
      match (slots secs).drop p with
      | [] => a.1 = 0
      | x :: rest => a.1 = 32 ∧ a.2.2 = recordOf s.dev.blocks x ∧ rest = (slots secs).drop (p+1) ∧
        (t.fileNum fd).ListsAt s.fatfs s.dev.blocks c (p+1) ∧ (t.fileNum fd).sector = x.1 ∧
        (t.fileNum fd).cursor = 32*(x.2+1) := by
  rw [fatRead,withFd,dif_pos fd.isLt,readSlot]
  refine returns_file (returns_ite (by simp [hl.open_,hl.read]) fun _ => ?_)
  refine (readLoop_record hE hg h hl).bind fun bytes t ht => ?_
  obtain ⟨ha,ht⟩ := ht
  cases hd : (slots secs).drop p with
  | nil =>
    simp only [hd] at ht ⊢
    subst ht
    exact returns_bind_of_ok rfl (returns_pure ⟨ha,rfl⟩)
  | cons x rest =>
    simp only [hd] at ht ⊢
    obtain ⟨rfl,hrest,hlt,hsector,hcursor⟩ := ht
    rw [if_pos (by simp [recordOf])]
    refine (fatUpdateAtime_returns E fd t).bind fun _ u hu => returns_pure ?_
    obtain ⟨now,mark,hu⟩ := hu
    rw [ha.blocks] at hu
    refine ⟨(ha.trans hu).self,?_⟩
    rw [hu.file]
    obtain ⟨q,j,hst,hplace⟩ := hlt.place
    refine ⟨by simp [recordOf,i32],rfl,hrest,⟨hlt.open_,hlt.read,hlt.write,hlt.clean,hlt.subdir,
      hlt.loaded,q,j,?_,hplace⟩,hsector,hcursor⟩
    exact hst.imp_right fun h => h.imp fun _ h => ⟨h.1,⟨h.2.inside,h.2.cluster,h.2.sector,h.2.left⟩⟩

/-- The loop of `fat_get_next_dirent` goes to the next entry it does not pass over. -/
theorem nextDirentLoop_returns {fd : Fd} {n : ℕ} {s : FatState} {c p : ℕ} {secs : List ℕ}
    (hg : s.fatfs.Valid s.dev.size) (h : s.fatfs.Scanned s.dev.blocks c secs)
    (hl : (s.fileNum fd).ListsAt s.fatfs s.dev.blocks c p) (hn : ((slots secs).drop p).length < n) :
    (nextDirentLoop E fd.val n).Returns s fun a t => After fd s t s.dev.blocks (t.fileNum fd) ∧
      match listed s.dev.blocks ((slots secs).drop p) with
      | [] => a.1 = -1
      | x :: rest => (∃ e de, a = (0,e,some de) ∧
          de.dName = fatnameToStr ((s.dev.blocks x.1).dirent x.2).nameByte) ∧
        (t.fileNum fd).sector = x.1 ∧ (t.fileNum fd).cursor = 32*(x.2+1) ∧
        ∃ p', (t.fileNum fd).ListsAt s.fatfs s.dev.blocks c p' ∧
          listed s.dev.blocks ((slots secs).drop p') = rest := by
  induction n generalizing s p with
  | zero => omega
  | succ n ih =>
    refine (fatRead_record hE hg h hl).bind fun a t ht => ?_
    obtain ⟨r,e,bytes⟩ := a
    obtain ⟨ha,ht⟩ := ht
    cases hd : (slots secs).drop p with
    | nil =>
      simp only [hd] at ht
      subst ht
      exact returns_ite (fun _ => returns_pure ⟨ha,rfl⟩) (by simp)
    | cons x rest =>
      simp only [hd] at ht hn
      obtain ⟨rfl,rfl,hrest,hlt,hsector,hcursor⟩ := ht
      refine returns_ite (by simp) fun _ => ?_
      rw [direntOfBytes_recordOf]
      have hfirst : ((s.dev.blocks x.1).dirent x.2).filename 0 = (s.dev.blocks x.1).get (32*x.2) := rfl
      refine returns_ite (fun hempty => returns_pure ⟨ha,?_⟩) fun hlive => ?_
      · have he : (s.dev.blocks x.1).emptyAt x.2 := hfirst.symm.trans hempty
        simp [listed,entries,he]
      · have he : ¬ (s.dev.blocks x.1).emptyAt x.2 := fun he => hlive (hfirst.trans he)
        refine returns_ite (fun hskip => ?_) fun hshow => ?_
        · have hlater := @ih t (p+1) (by rw [ha.fatfs,ha.size]; exact hg)
            (by rw [ha.fatfs,ha.blocks]; exact h) (by rw [ha.fatfs,ha.blocks]; exact hlt)
            (by rw [← hrest]; simpa using hn)
          rw [ha.fatfs,ha.blocks,← hrest] at hlater
          refine hlater.mono fun a u hu => ⟨ha.trans hu.1,?_⟩
          have heq : listed s.dev.blocks (x :: rest) = listed s.dev.blocks rest := by
            simp [listed,entries,he,hskip]
          rw [heq]
          exact hu.2
        · have heq : listed s.dev.blocks (x :: rest) = x :: listed s.dev.blocks rest := by
            simp [listed,entries,he,hshow]
          rw [heq]
          refine returns_fatfs (returns_pure ⟨ha,⟨_,_,rfl,rfl⟩,hsector,hcursor,p+1,hlt,?_⟩)
          rw [hrest]

end NoFault

/-! ### A whole listing -/

/-- A call of `fat_get_next_dirent` that delivers an entry, as the slot it has reached. -/
def DirentStep (E : Env) (fd : Fd) (s : FatState) (p : ℕ × ℕ) (t : FatState) : Prop :=
  (∃ e de, fatGetNextDirent E fd.val s = .ok ((0,e,some de),t) ∧
    de.dName = fatnameToStr ((s.dev.blocks p.1).dirent p.2).nameByte) ∧
  (t.fileNum fd).sector = p.1 ∧ (t.fileNum fd).cursor = 32*(p.2+1)

/-- The slot has the eleven bytes of a name. -/
def SameName (B : ℕ → Sector) (n : ℕ → UInt8) (p : ℕ × ℕ) : Prop :=
  ∀ k < 11, n k = (B p.1).get (32*p.2 + k)

instance (B : ℕ → Sector) (n : ℕ → UInt8) (p : ℕ × ℕ) : Decidable (SameName B n p) :=
  inferInstanceAs (Decidable (∀ k < 11, _))

theorem SameName.carries {B : ℕ → Sector} {n : ℕ → UInt8} {p : ℕ × ℕ} (h : SameName B n p) :
    (B p.1).carries n p.2 := by
  have hrefl (a : ℕ → UInt8) (m i : ℕ) : strncmpEq a a m i = true := by
    induction m generalizing i with
    | zero => rfl
    | succ m ih =>
      rw [strncmpEq,if_neg (by simp)]
      split
      · rfl
      · exact ih (i+1)
  have hcongr := @strncmpEq_congr n (fun k => (B p.1).get (32*p.2 + k))
    (fun k => (B p.1).get (32*p.2 + k)) 11 0 fun k _ hk => h k (by omega)
  rw [Sector.carries,hcongr]
  exact hrefl _ _ _

/-- Repeated calls reach the listed entries in turn, and then there is none left. -/
theorem listing_returns {E : Env} (hE : E.NoFault) {fd : Fd} {s : FatState} {c p : ℕ} {secs : List ℕ}
    (hg : s.fatfs.Valid s.dev.size) (h : s.fatfs.Scanned s.dev.blocks c secs)
    (hl : (s.fileNum fd).ListsAt s.fatfs s.dev.blocks c p) (hfuel : (slots secs).length < E.fuel) :
    ∃ t, Steps (DirentStep E fd) s (listed s.dev.blocks ((slots secs).drop p)) t ∧
      (fatGetNextDirent E fd.val).Returns t fun a _ => a.1 = -1 := by
  generalize hlog : listed s.dev.blocks ((slots secs).drop p) = log
  induction log generalizing s p with
  | nil =>
    have hnext := nextDirentLoop_returns hE hg h hl (n := E.fuel) (by rw [List.length_drop]; omega)
    rw [hlog] at hnext
    exact ⟨s,.nil s,hnext.mono fun a t ht => ht.2⟩
  | cons x rest ih =>
    have hnext := nextDirentLoop_returns hE hg h hl (n := E.fuel) (by rw [List.length_drop]; omega)
    rw [hlog] at hnext
    obtain ⟨a,t,ht,ha,⟨e,de,rfl,hname⟩,hsector,hcursor,p',hlt,hrest⟩ := hnext
    obtain ⟨u,hsteps,hend⟩ := @ih t p' (by rw [ha.fatfs,ha.size]; exact hg)
      (by rw [ha.fatfs,ha.blocks]; exact h) (by rw [ha.fatfs,ha.blocks]; exact hlt)
      (by rw [ha.blocks]; exact hrest)
    exact ⟨u,.cons ⟨⟨e,de,ht,hname⟩,hsector,hcursor⟩ hsteps,hend⟩

/-- A directory opened without write access can be listed from its first slot on. -/
theorem fatOpen_listsAt {E : Env} (hE : E.NoFault) {name : List UInt8} {flags : OpenFlags} {mode : ℕ}
    {e e' : ℤ} {s t : FatState} {fd : Fd} {secs : List ℕ}
    (hflags : flags.wronly = false ∧ flags.rdwr = false)
    (hopen : fatOpen E name flags mode e s = .ok ((fd.val,e'),t)) (hdir : (t.fileNum fd).isSubdir = true)
    (hg : t.fatfs.Valid t.dev.size)
    (hsecs : t.fatfs.Scanned t.dev.blocks (t.fileNum fd).fullFirstCluster secs) :
    (t.fileNum fd).ListsAt t.fatfs t.dev.blocks (t.fileNum fd).fullFirstCluster 0 := by
  obtain ⟨hstart,hread⟩ := fatOpen_started hflags hopen
  have hro := fatOpen_readOnlyAt hflags hopen
  obtain ⟨hopened,hselect,hload⟩ := hstart.place.resolve_left fun h => by simp [hdir] at h
  have hstands := (hsecs.select hg (t.fileNum fd)).1
  rw [hselect] at hstands
  obtain ⟨hq,hsector⟩ := hsecs.stands hg hstands
  have hmem : (t.fileNum fd).sector ∈ secs := by
    rw [← hsector,List.getD_eq_getElem _ _ hq]
    exact List.getElem_mem _
  exact ⟨hopened,hread,hro.quiet.unwritable,hro.quiet.clean,hdir,hload hE (hsecs.mem hg hmem).1,
    0,0,hstands,by omega,hstart.cursor,rfl⟩

/-! ### Listing and lookup -/

/-- Walking along these names from the directory at cluster `c` leads to the directory at `c'`. -/
inductive Reaches (g : FatInfo) (B : ℕ → Sector) : ℕ → List (ℕ → UInt8) → ℕ → Prop
  | here {c : ℕ} : Reaches g B c [] c
  | down {c c' b i : ℕ} {secs : List ℕ} {n : ℕ → UInt8} {rest : List (ℕ → UInt8)}
      (blocks : g.Scanned B c secs) (search : searchBlocks n B secs = some (b,i))
      (dir : ((B b).dirent i).isSubdir = true) (tail : Reaches g B (g.first ((B b).dirent i)) rest c') :
      Reaches g B c (n :: rest) c'

/-- One more name is looked for in the directory that is reached. -/
theorem Reaches.walk {g : FatInfo} {B : ℕ → Sector} {c c' : ℕ} {names : List (ℕ → UInt8)}
    {n : ℕ → UInt8} {o : Outcome} (h : Reaches g B c names c')
    (hwalk : Walk g B (g.Scanned B) c' [some n] o) :
    Walk g B (g.Scanned B) c ((names ++ [n]).map some) o := by
  induction h with
  | here => exact hwalk
  | @down c c' b i secs m rest blocks search dir tail ih =>
    have htail := ih hwalk
    cases rest with
    | nil => exact .down blocks search dir htail
    | cons m' rest => exact .down blocks search dir htail

/-- The first match of a list and the first match of what is shown of it agree exactly when the former
is shown and matches in full. -/
theorem find?_filter_agrees {α : Type} {l : List α} {P Q S : α → Bool} (hQP : ∀ a, Q a = true → P a = true)
    {found : Prop} {x : α} (hfound : found ↔ (l.find? P).isSome = true) (hx : ∀ p, l.find? P = some p → x = p) :
    ((found ↔ ∃ p ∈ l.filter S, Q p = true) ∧ ∀ p, (l.filter S).find? Q = some p → x = p) ↔
      ∀ p, l.find? P = some p → Q p = true ∧ S p = true := by
  cases hP : l.find? P with
  | none =>
    have hnone : ∀ a ∈ l, ¬ P a = true := by simpa using hP
    have hshown (p : α) (hp : p ∈ l.filter S) : ¬ Q p = true := fun hq =>
      hnone p (List.mem_filter.1 hp).1 (hQP p hq)
    refine iff_of_true ⟨?_,fun p hp => ?_⟩ (by simp)
    · rw [hfound,hP]
      simpa using hshown
    · exact absurd (List.find?_some hp) (hshown p (List.mem_of_find?_eq_some hp))
  | some y =>
    obtain rfl := hx y hP
    constructor
    · rintro ⟨hiff,hfirst⟩ p hp
      obtain rfl := Option.some.inj hp
      obtain ⟨p,hmem,hq⟩ := hiff.1 (hfound.2 (by rw [hP]; rfl))
      obtain ⟨y,hy⟩ := Option.isSome_iff_exists.1 (List.find?_isSome.2 ⟨p,hmem,hq⟩)
      obtain rfl := hfirst y hy
      exact ⟨List.find?_some hy,(List.mem_filter.1 (List.mem_of_find?_eq_some hy)).2⟩
    · intro h
      obtain ⟨hq,hs⟩ := h x rfl
      obtain ⟨-,before,after,rfl,hbefore⟩ := List.find?_eq_some_iff_append.1 hP
      refine ⟨iff_of_true (hfound.2 (by rw [hP]; rfl)) ⟨x,List.mem_filter.2 ⟨by simp,hs⟩,hq⟩,fun p hp => ?_⟩
      have hfind : (List.filter S (before ++ x :: after)).find? Q = some x := by
        rw [List.find?_filter,List.find?_eq_some_iff_append]
        refine ⟨by simp [hq,hs],before,after,rfl,fun a ha => ?_⟩
        have hnot := hbefore a ha
        by_cases hqa : Q a = true
        · simp [hQP a hqa] at hnot
        · simp [hqa]
      exact Option.some.inj (hfind.symm.trans hp)

/-- A lookup of a name in a directory succeeds exactly when a listing of the directory reaches a slot
with its eleven bytes, and then opens the first of these, exactly when the first entry the lookup takes
for the name has these bytes and is not passed over by the listing. -/
theorem lookup_agrees_iff {E : Env} (hE : E.NoFault) {dir path : List UInt8} {flags : OpenFlags}
    {mode : ℕ} {e e' e₂ : ℤ} {s t u : FatState} {fd fd' : Fd} {secs : List ℕ} {names : List DosName}
    {name : DosName} (hflags : flags.wronly = false ∧ flags.rdwr = false)
    (hopen : fatOpen E dir flags mode e s = .ok ((fd.val,e'),t)) (hdir : (t.fileNum fd).isSubdir = true)
    (hg : t.fatfs.Valid t.dev.size) (hfuel : E.Ample t.fatfs)
    (hsecs : t.fatfs.Scanned t.dev.blocks (t.fileNum fd).fullFirstCluster secs)
    (hfatfs : u.fatfs = t.fatfs) (hblocks : u.dev.blocks = t.dev.blocks) (hsize : u.dev.size = t.dev.size)
    (hfree : (u.fileNum fd').flags = .justOpen) (hlen : path.length ≤ 99)
    (hconv : Converts (u.garbage E) ((pathElements path).take 20) ((names ++ [name]).map some))
    (hreach : Reaches t.fatfs t.dev.blocks t.fatfs.rootCluster (names.map DosName.byte)
      (t.fileNum fd).fullFirstCluster) :
    ∃ log v, Steps (DirentStep E fd) t log v ∧ (fatGetNextDirent E fd.val).Returns v (fun a _ => a.1 = -1) ∧
      (fatLookupPath E fd' path e₂).Returns u fun r w =>
        (((r.1 = 0 ↔ ∃ p ∈ log, SameName t.dev.blocks name.byte p) ∧
            ∀ p, log.find? (fun p => SameName t.dev.blocks name.byte p) = some p →
              ((w.fileNum fd').entrySector,(w.fileNum fd').entryNumber) = p) ↔
          ∀ p, searchBlocks name.byte t.dev.blocks secs = some p →
            SameName t.dev.blocks name.byte p ∧ ((t.dev.blocks p.1).dirent p.2).isSkipped = false) := by
  have hlists := fatOpen_listsAt hE hflags hopen hdir hg hsecs
  have hshort : (slots secs).length < E.fuel := hfuel.slots hg hsecs
  obtain ⟨v,hsteps,hend⟩ := listing_returns hE hg hsecs hlists hshort
  refine ⟨_,v,hsteps,hend,?_⟩
  rw [List.drop_zero,listed]
  have hsearch := searchBlocks_eq_find name.byte t.dev.blocks secs
  have hagree {found : Prop} {x : ℕ × ℕ}
      (h : found ↔ (searchBlocks name.byte t.dev.blocks secs).isSome = true)
      (hx : ∀ p, searchBlocks name.byte t.dev.blocks secs = some p → x = p) := by
    rw [hsearch] at h hx
    exact find?_filter_agrees (Q := fun p => SameName t.dev.blocks name.byte p)
      (S := fun p => !((t.dev.blocks p.1).dirent p.2).isSkipped)
      (fun p hp => decide_eq_true (SameName.carries (of_decide_eq_true hp))) h hx
  simp only [← hsearch,decide_eq_true_eq,Bool.not_eq_true'] at hagree
  have hwalk (o : Outcome) (h : Walk t.fatfs t.dev.blocks (t.fatfs.Scanned t.dev.blocks)
      (t.fileNum fd).fullFirstCluster [some name.byte] o) :=
    @fatLookupPath_returns E hE fd' path _ e₂ u o (by rw [hfatfs,hsize]; exact hg)
      (by rw [hfatfs,hblocks]; exact fun c l h => hfuel.scanned hg h) hlen hconv
      (by
        rw [hfatfs,hblocks]
        have := hreach.walk h
        simpa [nameBytes,Function.comp_def] using this) hfree
  cases hs : searchBlocks name.byte t.dev.blocks secs with
  | none =>
    rw [hs] at hagree
    refine (hwalk _ (.missing hsecs hs)).mono fun r w hw => ?_
    obtain ⟨rfl,-⟩ := hw.2.2
    exact hagree (by decide) (by simp)
  | some x =>
    obtain ⟨b,i⟩ := x
    rw [hs] at hagree
    refine (hwalk _ (.entry hsecs hs)).mono fun r w hw => ?_
    obtain ⟨rfl,hholds⟩ := hw.2.2
    refine hagree (by simp) fun p h => ?_
    rw [hholds.entrySector,hholds.entryNumber]
    exact Option.some.inj h

theorem ok_of_join {ε α : Type} {x : Except ε (Option α)} {a : α} (h : x.toOption.join = some a) :
    x = .ok (some a) := by
  cases x with
  | error e => simp [Except.toOption] at h
  | ok o => simpa [Except.toOption] using h

theorem oneFile_name : ∃ name, convertElement (fun _ => 0) (oneFilePath.drop 1) = .ok (some name) := by
  have h : (convertElement (fun _ => 0) (oneFilePath.drop 1)).toOption.join.isSome = true := by decide +kernel
  exact (Option.isSome_iff_exists.1 h).imp fun _ => ok_of_join

/-- The only file of the small volume. -/
theorem lookup_agrees_file : let E := Env.calm (fun _ => 90) 9000
    ∃ t u : FatState, ∃ name : DosName,
      fatOpen E [chSlash] oRdonly 0 0 (.mounted smallFat16 300 oneFile) = .ok ((0,0),t) ∧
      convertElement (fun _ => 0) (oneFilePath.drop 1) = .ok (some name) ∧
      ∃ log v, Steps (DirentStep E 0) t log v ∧ (fatGetNextDirent E 0).Returns v (fun a _ => a.1 = -1) ∧
        (fatLookupPath E 1 oneFilePath 0).Returns u fun r w =>
          (((r.1 = 0 ↔ ∃ p ∈ log, SameName t.dev.blocks name.byte p) ∧
              ∀ p, log.find? (fun p => SameName t.dev.blocks name.byte p) = some p →
                ((w.fileNum 1).entrySector,(w.fileNum 1).entryNumber) = p) ↔
            ∀ p, searchBlocks name.byte t.dev.blocks [2,3] = some p →
              SameName t.dev.blocks name.byte p ∧ ((t.dev.blocks p.1).dirent p.2).isSkipped = false) := by
  intro E
  obtain ⟨name,hname⟩ := oneFile_name
  have hrun : Prog.test (fatOpen E [chSlash] oRdonly 0 0) (.mounted smallFat16 300 oneFile)
      (fun p t => decide (p = (0,0) ∧ t.fatfs = smallFat16 ∧ t.dev.size = 300 ∧
        (t.fileNum 0).isSubdir = true ∧ (t.fileNum 0).fullFirstCluster = 1)) = true := by
    decide +kernel
  obtain ⟨p,t,hopen,hp⟩ := ok_of_test hrun
  simp only [decide_eq_true_eq] at hp
  obtain ⟨rfl,hg,hsize,hdir,hfirst⟩ := hp
  have hagree := @lookup_agrees_iff E (env_calm_noFault _ _) [chSlash] oneFilePath oRdonly 0 0 0 0
    (.mounted smallFat16 300 oneFile) t (t.setFile 1 { FileS.closed with flags := .justOpen }) 0 1 [2,3] []
    name ⟨rfl,rfl⟩ hopen hdir (by rw [hg,hsize]; exact smallFat16_valid) (by rw [hg]; decide)
    (by rw [hg,hfirst]; exact .fixed rfl) rfl rfl rfl (by rw [FatState.setFile_self]) (by decide)
    (.cons hname .nil) (by rw [hg,hfirst]; exact .here)
  exact ⟨t,_,name,hopen,hname,hagree⟩

/-- The small volume with the label `AB.TXT` and nothing else in its root. -/
def labelled : ℕ → Sector
  | 1 => Sector.ofBytes [0xF8,0xFF,0xFF,0xFF,0xFF,0xFF]
  | 2 => Sector.ofBytes [0x41,0x42,0x20,0x20,0x20,0x20,0x20,0x20,0x54,0x58,0x54,0x08]
  | _ => Sector.zero

/-- The lookup opens the label of the volume, which no listing reaches. -/
theorem lookup_opens_label : let E := Env.calm (fun _ => 90) 9000
    ∃ t u : FatState, ∃ name : DosName, ∃ a,
      fatOpen E [chSlash] oRdonly 0 0 (.mounted smallFat16 300 labelled) = .ok ((0,0),t) ∧
      (t.fileNum 0).isSubdir = true ∧ (labelled 2).emptyAt 1 ∧
      convertElement (fun _ => 0) (oneFilePath.drop 1) = .ok (some name) ∧
      Steps (DirentStep E 0) t [] t ∧ fatGetNextDirent E 0 t = .ok (a,u) ∧ a.1 = -1 ∧
      (fatLookupPath E 1 oneFilePath 0).Returns (u.setFile 1 { u.fileNum 1 with flags := .justOpen })
        fun r _ => ¬ (r.1 = 0 ↔ ∃ p ∈ ([] : List (ℕ × ℕ)), SameName labelled name.byte p) := by
  intro E
  obtain ⟨name,hname⟩ := oneFile_name
  have hrun : Prog.test (do
      let p ← fatOpen E [chSlash] oRdonly 0 0
      let s₁ ← get
      let a ← fatGetNextDirent E 0
      updateFile 1 fun f => { f with flags := .justOpen }
      let r ← fatLookupPath E 1 oneFilePath 0
      pure (p,s₁,a.1,r)) (.mounted smallFat16 300 labelled)
      (fun x _ => decide (x.1 = (0,0) ∧ (x.2.1.fileNum 0).isSubdir = true ∧ x.2.2.1 = -1 ∧
        x.2.2.2 = (0,0))) = true := by
    decide +kernel
  obtain ⟨x,w,hx,hp⟩ := ok_of_test hrun
  obtain ⟨p,t,hopen,h₁⟩ := bind_ok hx
  rw [bind_of_ok rfl] at h₁
  obtain ⟨a,u,hnext,h₂⟩ := bind_ok h₁
  obtain ⟨b,v,hset,h₃⟩ := bind_ok h₂
  obtain ⟨r,w',hlookup,h₄⟩ := bind_ok h₃
  obtain ⟨rfl,rfl⟩ := pure_ok h₄
  simp only [decide_eq_true_eq] at hp
  obtain ⟨rfl,hdir,hlast,rfl⟩ := hp
  obtain rfl := updateFile_ok hset
  exact ⟨t,u,name,a,hopen,hdir,by decide,hname,.nil t,hnext,hlast,(0,0),_,hlookup,by simp⟩

end Gristle
