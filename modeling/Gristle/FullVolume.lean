import Gristle.FreeClusters
import Gristle.Open
import Gristle.ReadErrors

/-! A volume without a free cluster: what is written to a file that has no cluster yet never leaves the
buffer, and the call that closes the file says so. -/
namespace Gristle
open Prog

/-! ### A file without a cluster -/

/-- A new file, open for writing, with its first `n` bytes in the buffer. -/
structure FileS.Unplaced (appends : Bool) (n : ℕ) (f : FileS) : Prop where
  open_ : f.flags.open_ = true
  write : f.flags.write = true
  append : f.flags.append = appends
  dirty : f.flags.dirty = decide (0 < n)
  regular : f.isSubdir = false
  sector : f.sector = 0
  fileSector : f.fileSector = 0
  size : f.size = n
  cursor : f.cursor = n
  le : n ≤ 512

theorem FileS.Unplaced.position {a : Bool} {n : ℕ} {f : FileS} (h : f.Unplaced a n) : f.position = n := by
  have hle := h.le
  rw [FileS.position,h.cursor,h.fileSector,Nat.zero_mul,Nat.add_zero]
  exact u32_of_lt (by omega)

section Full
variable {E : Env} {fd : Fd} {s : FatState} {a : Bool} {n : ℕ} (hg : s.fatfs.Valid s.dev.size)
  (hfull : s.fatfs.Full s.dev.blocks) (h : (s.fileNum fd).Unplaced a n)
include hg hfull h

/-- Only an empty file is flushed without an error. -/
theorem fatFlush_unplaced : (fatFlush E fd).Returns s fun r t =>
    After fd s t s.dev.blocks (s.fileNum fd) ∧ (0 < n → r = -1) := by
  refine returns_file (returns_ite (fun hdirty => ?_) fun hclean => ?_)
  · rw [if_pos h.sector]
    refine (fatGetFreeCluster_exhausted E hg.table hfull).bind fun k t ht => ?_
    obtain ⟨rfl | rfl,ht,-⟩ := ht
    · exact returns_ite (by simp) fun _ => returns_ite (fun _ => returns_pure ⟨ht.after fd,fun _ => rfl⟩)
        (by simp)
    · exact returns_ite (fun _ => returns_pure ⟨ht.after fd,fun _ => rfl⟩) (by simp)
  · refine returns_pure ⟨After.refl s,fun hn => ?_⟩
    rw [h.dirty,decide_eq_true hn] at hclean
    exact absurd rfl hclean

theorem fatNextSector_unplaced (hn : 0 < n) : (fatNextSector E fd).Returns s fun failed t =>
    failed = true ∧ After fd s t s.dev.blocks (s.fileNum fd) :=
  (fatFlush_unplaced hg hfull h).bind fun r t ht =>
    returns_ite (fun _ => returns_pure ⟨rfl,ht.1⟩) fun hr => by simp [ht.2 hn] at hr

/-- Bytes are kept as long as they fit the buffer. -/
theorem writeLoop_unplaced (bytes : List UInt8) : (writeLoop E fd bytes).Returns s fun _ t =>
    After fd s t s.dev.blocks (t.fileNum fd) ∧
      (t.fileNum fd).Unplaced a (min 512 (n + bytes.length)) := by
  induction bytes generalizing s n with
  | nil => exact returns_pure ⟨After.refl s,by rw [List.length_nil,Nat.add_zero,Nat.min_eq_right h.le]; exact h⟩
  | cons c cs ih =>
    refine returns_file ?_
    have hle := h.le
    rcases Nat.lt_or_eq_of_le hle with hlt | rfl
    · have hne : (s.fileNum fd).cursor ≠ blockSize := by
        rw [h.cursor]
        exact Nat.ne_of_lt hlt
      rw [if_neg hne]
      refine returns_bind_of_ok rfl (returns_ite (by simp) fun _ => ?_)
      refine (updateFile_returns fd _ s).bind fun _ t ht => (updateFile_returns fd _ t).bind fun _ u hu => ?_
      have hsize : (s.fileNum fd).isSubdir = false ∧ (s.fileNum fd).position = (s.fileNum fd).size :=
        ⟨h.regular,by rw [h.position,h.size]⟩
      rw [if_pos hsize] at ht
      rw [ht.blocks,ht.file] at hu
      have hsu := ht.trans hu
      have hgrown : u32 ((s.fileNum fd).size + 1) = n+1 := by
        rw [h.size]
        exact u32_of_lt (by omega)
      have hnext : (u.fileNum fd).Unplaced a (n+1) := by
        rw [hu.file]
        exact ⟨h.open_,h.write,h.append,by simp,h.regular,h.sector,h.fileSector,hgrown,
          congrArg (· + 1) h.cursor,hlt⟩
      have hrest := @ih u (n+1) (by rw [hsu.fatfs,hsu.size]; exact hg)
        (by rw [hsu.fatfs,hsu.blocks]; exact hfull) hnext
      rw [hsu.blocks] at hrest
      refine hrest.mono fun r v hv => ⟨hsu.trans hv.1,?_⟩
      rw [List.length_cons,Nat.add_comm cs.length 1,← Nat.add_assoc]
      exact hv.2
    · have heq : (s.fileNum fd).cursor = blockSize := h.cursor
      rw [if_pos heq]
      refine (fatNextSector_unplaced hg hfull h (by omega)).bind fun failed t ht => ?_
      obtain ⟨rfl,ht⟩ := ht
      refine returns_ite (fun _ => returns_pure ⟨ht.self,?_⟩) (by simp)
      rw [Nat.min_eq_left (by omega),ht.file]
      exact h

/-- The seek of a file opened for appending moves nothing while there is room in the buffer. -/
theorem seekSlot_unplaced (hn : n < 512) : (seekSlot E 0 .end_ fd).Returns s fun _ t =>
    After fd s t s.dev.blocks (s.fileNum fd) := by
  refine returns_file (returns_ite (by simp [h.open_]) fun _ => ?_)
  refine (fatFlush_unplaced hg hfull h).bind fun r t ht => returns_file (returns_fatfs ?_)
  have ht := ht.1
  rw [ht.file]
  have htarget : (s.fileNum fd).target 0 .end_ = n := by
    rw [FileS.target,h.size,Int.add_zero]
    exact u32OfInt_natCast (by omega)
  rw [htarget,h.position]
  refine returns_ite (fun hlt => absurd hlt.1 (by rw [h.size]; omega)) fun _ => ?_
  have hne : (s.fileNum fd).cursor ≠ blockSize := by
    rw [h.cursor]
    exact Nat.ne_of_lt hn
  rw [if_neg hne]
  refine returns_bind_of_ok rfl (returns_ite (fun _ => ?_) (by simp))
  refine (updateFile_returns fd _ t).bind fun _ u hu => returns_pure ?_
  rw [ht.blocks,ht.file] at hu
  have hsame : { s.fileNum fd with cursor := n % blockSize } = s.fileNum fd := by
    rw [Nat.mod_eq_of_lt hn,← h.cursor]
  rw [hsame] at hu
  exact ht.trans hu

/-- A call of `fat_write` on a new file. -/
theorem fatWrite_unplaced {bytes : List UInt8} (ha : a = true → n < 512) :
    (fatWrite E fd.val bytes).Returns s fun _ t => After fd s t s.dev.blocks (t.fileNum fd) ∧
      (t.fileNum fd).Unplaced a (min 512 (n + bytes.length)) := by
  rw [fatWrite,withFd,dif_pos fd.isLt,writeSlot]
  refine returns_file (returns_ite (by simp [h.open_,h.write]) fun _ => ?_)
  have hseek : (if (s.fileNum fd).flags.append then seekSlot E 0 .end_ fd else pure (0,0)).Returns s
      fun _ t => After fd s t s.dev.blocks (s.fileNum fd) :=
    returns_ite (fun happend => seekSlot_unplaced hg hfull h (ha (h.append.symm.trans happend)))
      fun _ => returns_pure (After.refl s)
  refine hseek.bind fun p t ht => ?_
  have hloop := @writeLoop_unplaced E fd t a n (by rw [ht.fatfs,ht.size]; exact hg)
    (by rw [ht.fatfs,ht.blocks]; exact hfull) (by rw [ht.file]; exact h) bytes
  rw [ht.blocks] at hloop
  refine hloop.bind fun full u hu => ?_
  have hsu := ht.trans hu.1
  refine returns_ite (fun _ => returns_pure ⟨hsu,hu.2⟩) fun _ => ?_
  have htime : (if 0 < bytes.length then fatUpdateMtime E fd else pure ()).Returns u fun _ v =>
      After fd u v s.dev.blocks (v.fileNum fd) ∧
        (v.fileNum fd).Unplaced a (min 512 (n + bytes.length)) := by
    refine returns_ite (fun _ => ?_) fun _ => returns_pure ⟨hsu.blocks ▸ After.refl u,hu.2⟩
    refine (fatUpdateMtime_returns E fd u).mono fun _ v hv => ?_
    obtain ⟨now,hv⟩ := hv
    rw [hsu.blocks] at hv
    refine ⟨hv.self,?_⟩
    rw [hv.file]
    obtain ⟨h₁,h₂,h₃,h₄,h₅,h₆,h₇,h₈,h₉,hle⟩ := hu.2
    exact ⟨h₁,h₂,h₃,h₄,h₅,h₆,h₇,h₈,h₉,hle⟩
  exact htime.bind fun _ v hv => returns_pure ⟨hsu.trans hv.1,hv.2⟩

/-- Closing a new file that has bytes in its buffer fails. -/
theorem fatClose_unplaced (hn : 0 < n) : (fatClose E fd.val).Returns s fun r t =>
    t.dev.blocks = s.dev.blocks ∧ r.1 = -1 := by
  rw [fatClose,withFd,dif_pos fd.isLt,closeSlot]
  refine returns_file (returns_ite (by simp [h.open_]) fun _ => ?_)
  rw [h.dirty,if_pos (decide_eq_true hn)]
  have hfail : (do pure ((← fatFlush E fd) != 0) : FatM Bool).Returns s fun failed t =>
      failed = true ∧ t.dev.blocks = s.dev.blocks :=
    (fatFlush_unplaced hg hfull h).bind fun r t ht => returns_pure ⟨by rw [ht.2 hn]; rfl,ht.1.blocks⟩
  refine hfail.bind fun failed t ht => ?_
  obtain ⟨rfl,ht⟩ := ht
  exact returns_ite (fun _ => returns_pure ⟨ht,rfl⟩) (by simp)

end Full

/-- The calls of `fat_write` one after the other, with their results. -/
def fatWrites (E : Env) (fd : ℕ) : List (List UInt8) → FatM (List (ℤ × ℤ))
  | [] => pure []
  | bytes :: rest => do
    let r ← fatWrite E fd bytes
    let rs ← fatWrites E fd rest
    pure (r :: rs)

/-- Without write access the calls fail. -/
theorem fatWrites_unwritable {E : Env} {fd : Fd} {s : FatState} (h : (s.fileNum fd).flags.write = false)
    (chunks : List (List UInt8)) : ∃ rs, fatWrites E fd.val chunks s = .ok (rs,s) ∧
      (chunks ≠ [] → -1 ∈ rs.map Prod.fst) := by
  induction chunks with
  | nil => exact ⟨[],rfl,by simp⟩
  | cons bytes rest ih =>
    obtain ⟨rs,hrs,-⟩ := ih
    have hone : fatWrite E fd.val bytes s = .ok ((-1,eBadf),s) := by
      rw [fatWrite,withFd,dif_pos fd.isLt,writeSlot,bind_of_ok rfl,run_ite,if_pos (.inr h)]
      rfl
    refine ⟨(-1,eBadf) :: rs,?_,fun _ => by simp⟩
    rw [fatWrites,bind_of_ok hone,bind_of_ok hrs]
    rfl

/-- Calls on a new file, none of which appends to a full buffer. -/
theorem fatWrites_unplaced {E : Env} {fd : Fd} {s : FatState} {a : Bool} {n : ℕ}
    {chunks : List (List UInt8)} (hg : s.fatfs.Valid s.dev.size) (hfull : s.fatfs.Full s.dev.blocks)
    (h : (s.fileNum fd).Unplaced a n)
    (ha : a = true → chunks ≠ [] → n + chunks.dropLast.flatten.length < 512) :
    (fatWrites E fd.val chunks).Returns s fun _ t => After fd s t s.dev.blocks (t.fileNum fd) ∧
      (t.fileNum fd).Unplaced a (min 512 (n + chunks.flatten.length)) := by
  induction chunks generalizing s n with
  | nil =>
    refine returns_pure ⟨After.refl s,?_⟩
    rw [List.flatten_nil,List.length_nil,Nat.add_zero,Nat.min_eq_right h.le]
    exact h
  | cons bytes rest ih =>
    refine (fatWrite_unplaced hg hfull h fun ht => ?_).bind fun r t ht => ?_
    · have := ha ht (by simp)
      omega
    obtain ⟨hst,hplaced⟩ := ht
    have hrest := @ih t _ (by rw [hst.fatfs,hst.size]; exact hg) (by rw [hst.fatfs,hst.blocks]; exact hfull)
      hplaced fun ht hne => by
        have := ha ht (by simp)
        rw [List.dropLast_cons_of_ne_nil hne,List.flatten_cons,List.length_append] at this
        omega
    rw [hst.blocks] at hrest
    refine hrest.bind fun rs u hu => returns_pure ⟨hst.trans hu.1,?_⟩
    have hlength : min 512 (n + (bytes :: rest).flatten.length) =
        min 512 (min 512 (n + bytes.length) + rest.flatten.length) := by
      rw [List.flatten_cons,List.length_append]
      omega
    rw [hlength]
    exact hu.2

/-- A descriptor without anything to store is given back. -/
theorem fatClose_clean {E : Env} {fd : Fd} {s : FatState} (hopen : (s.fileNum fd).flags.open_ = true)
    (hclean : (s.fileNum fd).flags.dirty = false) (hsaved : (s.fileNum fd).flags.fsDirty = false) :
    fatClose E fd.val s = .ok ((0,0),s.setFile fd { s.fileNum fd with flags := .none }) := by
  rw [fatClose,withFd,dif_pos fd.isLt]
  exact closeSlot_clean hopen hclean hsaved

/-- Create a file, write to it and close it: the results of the calls of `fat_write` and `fat_close`. -/
def createFile (E : Env) (path : List UInt8) (flags : OpenFlags) (mode : ℕ) (e : ℤ)
    (chunks : List (List UInt8)) : FatM (List ℤ × ℤ) := do
  let (fd,_) ← fatOpen E path flags mode e
  let rs ← fatWrites E fd.toNat chunks
  let (r,_) ← fatClose E fd.toNat
  pure (rs.map Prod.fst,r)

/-- The last element of a path is missing: the lookup of `fat_open` says so, or no transfer fails and
the directory the other elements lead to does not have it. -/
def Misses (E : Env) (fd : Fd) (path : List UInt8) (e : ℤ) (s : FatState) : Prop :=
  (∃ u, fatLookupPath E fd path e (s.taken fd) = .ok ((-1,eNoent),u)) ∨
    E.NoFault ∧ E.Ample s.fatfs ∧ path.length ≤ 99 ∧ ∃ names p,
      Converts ((s.taken fd).garbage E) ((pathElements path).take 20) names ∧
      Walk s.fatfs s.dev.blocks (s.fatfs.Scanned s.dev.blocks) s.fatfs.rootCluster (nameBytes names)
        (.missing p)

theorem Misses.lookup {E : Env} {fd : Fd} {path : List UInt8} {e : ℤ} {s : FatState}
    (h : Misses E fd path e s) (hg : s.fatfs.Valid s.dev.size) :
    ∃ u, fatLookupPath E fd path e (s.taken fd) = .ok ((-1,eNoent),u) := by
  rcases h with h | ⟨hE,hfuel,hlen,names,p,hconv,hwalk⟩
  · exact h
  · obtain ⟨r,u,hu,-,-,hr,-⟩ := @fatLookupPath_returns E hE fd path names e (s.taken fd) _ hg
      (fun c secs h => hfuel.scanned hg h) hlen hconv hwalk (by rw [FatState.taken,FatState.setFile_self])
    exact ⟨u,by rw [hu,hr]⟩

/-- Creating a file where no cluster is free returns, reports an error and changes nothing, if at least
one byte is written and no call appends to a buffer that is full. -/
theorem createFile_exhausted {E : Env} {fd : Fd} {s : FatState} {path : List UInt8} {flags : OpenFlags}
    {mode : ℕ} {e : ℤ} {chunks : List (List UInt8)} (hg : s.fatfs.Valid s.dev.size)
    (hro : s.fatfs.readOnly = 0) (hslot : s.FreeSlot fd) (hcreat : flags.creat = true)
    (hmiss : Misses E fd path e s)
    (hwhen : flags.wronly = false ∧ flags.rdwr = false ∧ chunks ≠ [] ∨
      s.fatfs.Full s.dev.blocks ∧ 0 < chunks.flatten.length ∧
        (flags.append = true → chunks.dropLast.flatten.length < 512)) :
    (createFile E path flags mode e chunks).Returns s fun p t =>
      t.dev.blocks = s.dev.blocks ∧ (-1 ∈ p.1 ∨ p.2 = -1) := by
  obtain ⟨u,hu⟩ := hmiss.lookup hg
  refine (fatOpen_missing hslot hcreat hro hu).bind fun r t ht => ?_
  obtain ⟨rfl,hlent,now,ht⟩ := ht
  dsimp only
  rw [Int.toNat_natCast]
  have hregular : ((((u.fileNum fd).granted flags).create mode now).isSubdir) = false := by
    change ((if ownerMayWrite mode then attArc else attArc ||| attRo) &&& attSubdir != 0) = false
    split <;> decide
  have hflags : (((u.fileNum fd).granted flags).create mode now).flags = Flags.justOpen.access flags := by
    change Flags.access flags (u.fileNum fd).flags = _
    rw [hlent]
  by_cases hw : flags.wronly = false ∧ flags.rdwr = false
  · have hwrite : (t.fileNum fd).flags.write = false := by
      rw [ht.file,hflags]
      simp [Flags.access,Flags.justOpen,hw]
    obtain ⟨rs,hrs,herror⟩ := fatWrites_unwritable (E := E) hwrite chunks
    have hclose := @fatClose_clean E fd t (by rw [ht.file,hflags]; rfl) (by rw [ht.file,hflags]; rfl)
      (by rw [ht.file,hflags]; rfl)
    refine returns_bind_of_ok hrs (returns_bind_of_ok hclose (returns_pure ⟨ht.blocks,.inl (herror ?_)⟩))
    rcases hwhen with ⟨-,-,hne⟩ | ⟨-,hpos,-⟩
    · exact hne
    · rintro rfl
      simp at hpos
  · obtain ⟨hfull,hpos,happend⟩ := hwhen.resolve_left fun h => hw ⟨h.1,h.2.1⟩
    have hplaced : (t.fileNum fd).Unplaced flags.append 0 := by
      rw [ht.file]
      refine ⟨?_,?_,?_,?_,hregular,rfl,rfl,rfl,rfl,Nat.zero_le _⟩ <;> rw [hflags]
      · rfl
      · simp only [Flags.access,Flags.justOpen,Bool.false_or]
        rw [not_and_or] at hw
        simpa [or_comm] using hw
      · rfl
      · rfl
    refine (fatWrites_unplaced (by rw [ht.fatfs,ht.size]; exact hg) (by rw [ht.fatfs,ht.blocks]; exact hfull)
      hplaced fun ha _ => by rw [Nat.zero_add]; exact happend ha).bind fun rs v hv => ?_
    obtain ⟨hv,hkept⟩ := hv
    have hsv := ht.trans (ht.blocks ▸ hv)
    refine (fatClose_unplaced (by rw [hsv.fatfs,hsv.size]; exact hg)
      (by rw [hsv.fatfs,hsv.blocks]; exact hfull) hkept (by omega)).bind fun r w hw => ?_
    exact returns_pure ⟨hw.1.trans hsv.blocks,.inr hw.2⟩

/-- A full root directory and no free cluster. -/
def fullVolume : ℕ → Sector
  | 1 => fun _ => 0xFF
  | 2 => fun _ => 0x41
  | _ => Sector.zero

/-- One byte for a new file. -/
theorem createFile_exhausted_byte : let E := Env.calm (fun _ => 90) 8
    (createFile E oneFilePath { oWronly with creat := true } 0o777 0 [[0x78]]).Returns
      (.mounted smallFat16 300 fullVolume) fun p t =>
        t.dev.blocks = fullVolume ∧ (-1 ∈ p.1 ∨ p.2 = -1) := by
  intro E
  have hrun : Prog.test (fatLookupPath E 0 oneFilePath 0)
      ((FatState.mounted smallFat16 300 fullVolume).taken 0) (fun r _ => r == (-1,eNoent)) = true := by
    decide +kernel
  obtain ⟨r,u,hu,hr⟩ := ok_of_test hrun
  rw [beq_iff_eq] at hr
  have hfull : smallFat16.Full fullVolume := by
    have h : ∀ c < 256, smallFat16.entry fullVolume c ≠ 0 := by decide +kernel
    exact h
  exact @createFile_exhausted E 0 (.mounted smallFat16 300 fullVolume) oneFilePath
    { oWronly with creat := true } 0o777 0 [[0x78]] smallFat16_valid rfl (by decide) rfl
    (.inl ⟨u,by rw [hu,hr]⟩) (.inr ⟨hfull,by decide,by decide⟩)

/-- A root directory with sixteen entries. The first is the file `/AB.TXT` of one sector of zeros in
cluster 2; the others are empty files. -/
def fullRoot : ℕ → Sector
  | 1 => Sector.ofBytes [0xF8,0xFF,0xFF,0xFF,0xFF,0xFF]
  | 2 => Sector.ofBytes ([0x41,0x42,0x20,0x20,0x20,0x20,0x20,0x20,0x54,0x58,0x54,0x20,
      0,0,0,0,0,0,0,0,0,0,0,0,0,0,2,0,0,2,0,0] ++ (List.range 15).flatMap fun i =>
        [UInt8.ofNat (0x42 + i),0x42,0x20,0x20,0x20,0x20,0x20,0x20,0x54,0x58,0x54,0x20] ++ List.replicate 20 0)
  | _ => Sector.zero

/-- `"/ZZ.TXT"` -/
def newFilePath : List UInt8 := [0x2F,0x5A,0x5A,0x2E,0x54,0x58,0x54]

/-- The root has no empty slot, so the entry of a new file is stored in the data of another one, and no
call reports an error. -/
theorem createFile_overwrites_file : let E := Env.calm (fun _ => 90) 8
    (∀ i < 16, ¬ (fullRoot 2).emptyAt i) ∧ smallFat16.Chain fullRoot 2 [2] ∧
    ((fullRoot 2).dirent 0).cluster smallFat16 = 2 ∧ ((fullRoot 2).dirent 0).size = 512 ∧
    ∃ p t, createFile E newFilePath { oWronly with creat := true } 0o777 0 [[0x78]]
        (.mounted smallFat16 300 fullRoot) = .ok (p,t) ∧ ¬ (-1 ∈ p.1 ∨ p.2 = -1) ∧
      smallFat16.fileBytes t.dev.blocks [2] 512 ≠ smallFat16.fileBytes fullRoot [2] 512 := by
  intro E
  have hrun : Prog.test (createFile E newFilePath { oWronly with creat := true } 0o777 0 [[0x78]])
      (.mounted smallFat16 300 fullRoot) (fun p t => decide (¬ (-1 ∈ p.1 ∨ p.2 = -1) ∧
        smallFat16.content t.dev.blocks [2] 0 ≠ smallFat16.content fullRoot [2] 0)) = true := by
    decide +kernel
  obtain ⟨p,t,hrun,hp⟩ := ok_of_test hrun
  obtain ⟨hok,hbyte⟩ := of_decide_eq_true hp
  refine ⟨by decide +kernel,⟨.last (by decide +kernel),by decide⟩,by decide +kernel,by decide +kernel,
    p,t,hrun,hok,fun heq => hbyte ?_⟩
  have h := congrArg (fun l => l[0]?) heq
  simpa [FatInfo.fileBytes] using h

end Gristle
