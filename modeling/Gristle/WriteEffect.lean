import Gristle.Crossing
import Gristle.ReadErrors

/-! What a call of `fat_write` reports and what it has done, wherever a block transfer fails or the volume
becomes full on the way. -/
namespace Gristle
open Prog

/-! ### The content of a file behind a descriptor -/

/-- The position of a descriptor: `file_sector * 512 + cursor`. -/
def FileS.offset (f : FileS) : ℕ := f.fileSector * 512 + f.cursor

theorem FileS.position_eq (f : FileS) : f.position = u32 f.offset := by
  rw [FileS.position,FileS.offset,Nat.add_comm]

/-- The file behind the descriptor consists of these bytes: it has a chain long enough for its size, and a
buffer that is still to be written counts for the sector under it. -/
def FatState.Contains (s : FatState) (fd : Fd) (d : List UInt8) : Prop :=
  ∃ cs, s.fatfs.Chain s.dev.blocks (s.fileNum fd).fullFirstCluster cs ∧
    (s.fileNum fd).size ≤ s.fatfs.span cs * 512 ∧
    d = (List.range (s.fileNum fd).size).map (s.fatfs.content ((s.fileNum fd).flushed s.dev.blocks) cs)

/-- A descriptor open for writing, without `O_APPEND`, on a regular file with a chain that is long enough and
an entry that lies neither in the clusters of the file nor in a free one. -/
structure FatState.WritesFile (s : FatState) (fd : Fd) : Prop where
  volume : s.fatfs.Valid s.dev.size
  open_ : (s.fileNum fd).flags.open_ = true
  write : (s.fileNum fd).flags.write = true
  append : (s.fileNum fd).flags.append = false
  regular : (s.fileNum fd).isSubdir = false
  size_lt : (s.fileNum fd).size < 2^32
  cursor : (s.fileNum fd).cursor ≤ 512
  file : ∃ cs, (s.fileNum fd).size ≤ s.fatfs.span cs * 512 ∧
    Walks s.fatfs s.dev.blocks (s.fileNum fd).fullFirstCluster cs [] (s.fileNum fd).fileSector (s.fileNum fd)

/-- The result of the call tells what it did: a number of bytes is the number of bytes by which the position
advanced, and the file has the bytes there; `-1` means that position, size and content are as before. -/
def WriteAgrees (E : Env) (fd : Fd) (bytes : List UInt8) (s : FatState) : Prop :=
  ∀ r e t, fatWrite E fd.val bytes s = .ok ((r,e),t) →
    (0 ≤ r → (t.fileNum fd).offset = (s.fileNum fd).offset + r.toNat ∧
      ∃ d, t.Contains fd d ∧ ∀ i < r.toNat, d[(s.fileNum fd).offset + i]? = bytes[i]?) ∧
    (r = -1 → (t.fileNum fd).offset = (s.fileNum fd).offset ∧ (t.fileNum fd).size = (s.fileNum fd).size ∧
      ∀ d, s.Contains fd d → t.Contains fd d)

/-! ### One pass of the loop -/

/-- The first half of a pass of the loop of `fat_write`: a sector that is used up is left for the next one. -/
def turnSector (E : Env) (fd : Fd) : FatM Bool := do
  let f ← file fd
  if f.cursor = blockSize then fatNextSector E fd else pure false

/-- The second half: the byte goes into the buffer. -/
def FatState.putByte (s : FatState) (fd : Fd) (c : UInt8) : FatState :=
  s.setFile fd ((s.fileNum fd).swell.put c)

theorem FatState.setFile_setFile (s : FatState) (fd : Fd) (f f' : FileS) :
    (s.setFile fd f).setFile fd f' = s.setFile fd f' := by
  simp [FatState.setFile]

theorem putByte_after (s : FatState) (fd : Fd) (c : UInt8) :
    After fd s (s.putByte fd c) s.dev.blocks ((s.fileNum fd).swell.put c) :=
  updateFile_after fd (fun f => f.swell.put c) s

theorem writeLoop_cons (E : Env) (fd : Fd) (c : UInt8) (cs : List UInt8) (s : FatState) :
    writeLoop E fd (c :: cs) s = (turnSector E fd >>= fun failed =>
      if failed then pure true else fun t => writeLoop E fd cs (t.putByte fd c)) s := by
  have hturn : turnSector E fd s =
      (if (s.fileNum fd).cursor = blockSize then fatNextSector E fd else pure false) s := rfl
  rw [writeLoop,bind_of_ok rfl,bind_apply,bind_apply,hturn]
  cases (if (s.fileNum fd).cursor = blockSize then fatNextSector E fd else pure false) s with
  | error e => rfl
  | ok p =>
    obtain ⟨failed,t⟩ := p
    cases failed with
    | true => rfl
    | false =>
      change writeLoop E fd cs ((t.setFile fd (t.fileNum fd).swell).setFile fd
        (((t.setFile fd (t.fileNum fd).swell).fileNum fd).put c)) = writeLoop E fd cs (t.putByte fd c)
      rw [FatState.setFile_self,FatState.putByte,FatState.setFile_setFile]

/-- Each time the bytes so far have used up a sector, `fat_next_sector` succeeds, and a cluster it adds to the
chain has a number that can be linked. -/
def Passes (E : Env) (fd : Fd) : List UInt8 → FatState → Prop
  | [], _ => True
  | c :: cs, s => ∃ t, turnSector E fd s = .ok (false,t) ∧
      FileS.Follows s.fatfs (s.fileNum fd) (t.fileNum fd) ∧ Passes E fd cs (t.putByte fd c)

/-! ### Position and size -/

theorem FileS.put_swell (f : FileS) (c : UInt8) : f.swell.put c =
    { f with
      buffer := f.buffer.set f.cursor c, cursor := f.cursor + 1, size := f.swell.size
      flags.dirty := true, flags.fsDirty := f.swell.flags.fsDirty } := by
  unfold FileS.put FileS.swell
  split <;> rfl

theorem FileS.size_swell (f : FileS) (h : f.isSubdir = false) :
    f.swell.size = if f.position = f.size then u32 (f.size + 1) else f.size := by
  unfold FileS.swell
  by_cases hp : f.position = f.size
  · rw [if_pos ⟨h,hp⟩,if_pos hp]
  · rw [if_neg (fun h => hp h.2),if_neg hp]

/-- The descriptor accepted `n` bytes: its position moved by as many, in 32 bits, and the size followed if the
position was not behind it. -/
structure Advanced (fd : Fd) (s t : FatState) (n : ℕ) : Prop where
  position : (t.fileNum fd).position = u32 ((s.fileNum fd).position + n)
  first : (t.fileNum fd).fullFirstCluster = (s.fileNum fd).fullFirstCluster
  regular : (t.fileNum fd).isSubdir = (s.fileNum fd).isSubdir
  size_lt : (s.fileNum fd).size < 2^32 → (t.fileNum fd).size < 2^32
  grown : (s.fileNum fd).position ≤ (s.fileNum fd).size → (s.fileNum fd).position + n < 2^32 →
    (t.fileNum fd).size = max (s.fileNum fd).size ((s.fileNum fd).position + n)
  kept : (s.fileNum fd).size < (s.fileNum fd).position → (s.fileNum fd).position + n < 2^32 →
    (t.fileNum fd).size = (s.fileNum fd).size

theorem Advanced.refl (fd : Fd) (s : FatState) : Advanced fd s s 0 where
  position := (Nat.mod_mod_of_dvd _ (Nat.dvd_refl _)).symm
  first := rfl
  regular := rfl
  size_lt := id
  grown h _ := (Nat.max_eq_left h).symm
  kept _ _ := rfl

theorem Advanced.trans {fd : Fd} {s t u : FatState} {m n : ℕ} (h : Advanced fd s t m)
    (h' : Advanced fd t u n) : Advanced fd s u (m + n) where
  position := by
    rw [h'.position,h.position]
    unfold u32
    omega
  first := h'.first.trans h.first
  regular := h'.regular.trans h.regular
  size_lt hs := h'.size_lt (h.size_lt hs)
  grown hle hlt := by
    have hp := h.position
    rw [u32_of_lt (by omega)] at hp
    have hsize := h.grown hle (by omega)
    rw [h'.grown (by omega) (by omega),hsize,hp]
    omega
  kept hle hlt := by
    have hp := h.position
    rw [u32_of_lt (by omega)] at hp
    have hsize := h.kept hle (by omega)
    rw [h'.kept (by omega) (by omega),hsize]

theorem putByte_advanced {fd : Fd} {s : FatState} (h : (s.fileNum fd).isSubdir = false) (c : UInt8) :
    Advanced fd s (s.putByte fd c) 1 := by
  have hfile := (putByte_after s fd c).file
  have hsize : ((s.putByte fd c).fileNum fd).size = _ := (congrArg FileS.size hfile).trans
    ((congrArg FileS.size (FileS.put_swell _ c)).trans (FileS.size_swell _ h))
  rw [FileS.put_swell] at hfile
  have hp := (s.fileNum fd).position_eq
  have hposition : ((s.putByte fd c).fileNum fd).position = u32 ((s.fileNum fd).position + 1) := by
    rw [FileS.position_eq,hp,hfile]
    change u32 ((s.fileNum fd).fileSector * 512 + ((s.fileNum fd).cursor + 1)) = _
    unfold FileS.offset u32
    omega
  refine ⟨hposition,by rw [hfile],by rw [hfile]; rfl,fun hlt => ?_,fun hle hlt => ?_,fun hle _ => ?_⟩
  · rw [hsize]
    split
    · exact u32_lt _
    · exact hlt
  · rw [hsize]
    by_cases heq : (s.fileNum fd).position = (s.fileNum fd).size
    · rw [if_pos heq,u32_of_lt (by omega)]
      omega
    · rw [if_neg heq]
      omega
  · rw [hsize,if_neg (by omega)]

section Run
variable {E : Env} (hfuel : 0 < E.fuel) {fd : Fd} {s : FatState} {a q : ℕ} {ws ks : List ℕ}

theorem Crossing.advanced {V : ℕ → Sector} {t : FatState} {failed : Bool}
    (h : Crossing fd a ws ks q V s t failed) (hcursor : (s.fileNum fd).cursor = 512) : Advanced fd s t 0 := by
  have hposition : (t.fileNum fd).position = (s.fileNum fd).position := by
    have hmoved (hfs : (t.fileNum fd).fileSector = u32 ((s.fileNum fd).fileSector + 1))
        (hzero : (t.fileNum fd).cursor = 0) : (t.fileNum fd).position = (s.fileNum fd).position := by
      rw [FileS.position_eq,FileS.position_eq,FileS.offset,FileS.offset,hfs,hzero,hcursor]
      unfold u32
      omega
    cases h.crossed with
    | stays _ hfs hcur => rw [FileS.position,FileS.position,hfs,hcur]
    | moves _ _ hfs hcur => exact hmoved hfs hcur
    | leaves _ _ _ _ hfs hcur => exact hmoved hfs hcur
  have hsize := FileS.field_of_still FileS.size (fun _ => rfl) h.still
  constructor
  case position => rw [hposition]; exact (Nat.mod_mod_of_dvd _ (Nat.dvd_refl _)).symm
  case first => exact FileS.field_of_still FileS.fullFirstCluster (fun _ => rfl) h.still
  case regular => exact FileS.field_of_still FileS.isSubdir (fun _ => rfl) h.still
  case size_lt => rw [hsize]; exact id
  case grown => intro hle _; rw [hsize]; exact (Nat.max_eq_left hle).symm
  case kept => intro _ _; exact hsize

include hfuel

/-- Leaving a sector that is used up. -/
theorem Walks.turnSector_every (hg : s.fatfs.Valid s.dev.size)
    (h : Walks s.fatfs s.dev.blocks a ws ks q (s.fileNum fd)) : (turnSector E fd).Returns s fun failed t =>
      failed = false ∧ t = s ∧ (s.fileNum fd).cursor ≠ 512 ∨ (s.fileNum fd).cursor = 512 ∧
        Crossing fd a ws ks q ((s.fileNum fd).flushed s.dev.blocks) s t failed := by
  refine returns_file (returns_ite (fun hc => ?_) fun hc => returns_pure (.inl ⟨rfl,rfl,hc⟩))
  exact (h.fatNextSector_every hfuel hg).mono fun failed t ht => .inr ⟨hc,ht⟩

omit hfuel in
theorem Walks.putByte (hg : s.fatfs.Valid s.dev.size)
    (h : Walks s.fatfs s.dev.blocks a ws ks q (s.fileNum fd)) (c : UInt8) :
    Walks s.fatfs s.dev.blocks a ws ks q ((s.putByte fd c).fileNum fd) := by
  rw [(putByte_after s fd c).file,FileS.put_swell]
  exact h.congr hg (fun _ _ h => h) (fun _ _ => rfl) (h.at_.congr rfl rfl rfl) rfl

omit hfuel in
/-- Wherever the descriptor is after the step, it stands in a chain beside the other clusters. -/
theorem Crossing.onward {V : ℕ → Sector} {t : FatState} (h : Crossing fd a ws ks q V s t false) :
    (t.fileNum fd).cursor = 0 ∧ ∃ a' ws' ks' q', (∀ c ∈ ks, c ∈ ks') ∧
      Walks t.fatfs t.dev.blocks a' ws' ks' q' (t.fileNum fd) := by
  rw [h.but.fatfs]
  cases h.crossed with
  | moves _ hw _ hcur => exact ⟨hcur,_,_,_,_,fun _ hc => hc,hw⟩
  | leaves _ _ _ hw _ hcur => exact ⟨hcur,_,_,_,_,fun c hc => by simp [hc],hw⟩

/-- Whatever happens, the position tells how many bytes were accepted. -/
theorem writeLoop_advanced (hg : s.fatfs.Valid s.dev.size) (hregular : (s.fileNum fd).isSubdir = false)
    (h : Walks s.fatfs s.dev.blocks a ws ks q (s.fileNum fd)) (hcursor : (s.fileNum fd).cursor ≤ 512)
    (bytes : List UInt8) : (writeLoop E fd bytes).Returns s fun failed t =>
      ∃ m, Advanced fd s t m ∧ (failed = false → m = bytes.length) ∧
        (failed = true → m < bytes.length ∧ (m = 0 → ∃ u, turnSector E fd s = .ok (true,u))) ∧
        ∀ c ∈ ks, s.fatfs.entry t.dev.blocks c = s.fatfs.entry s.dev.blocks c := by
  induction bytes generalizing s a ws ks q with
  | nil => exact returns_pure ⟨0,Advanced.refl fd s,fun _ => rfl,by simp,fun _ _ => rfl⟩
  | cons c cs ih =>
    rw [Returns,writeLoop_cons]
    obtain ⟨failed,t,hrun,ht⟩ := h.turnSector_every hfuel hg
    refine returns_bind_of_ok hrun ?_
    -- the byte goes into the buffer, and the rest follows
    have hrest {u : FatState} {a' q' : ℕ} {ws' ks' : List ℕ} (hbut : SameBut fd s u) (hadv : Advanced fd s u 0)
        (hin : (u.fileNum fd).cursor < 512) (hks : ∀ c ∈ ks, c ∈ ks')
        (hu : Walks u.fatfs u.dev.blocks a' ws' ks' q' (u.fileNum fd))
        (hentry : ∀ c ∈ ks, s.fatfs.entry u.dev.blocks c = s.fatfs.entry s.dev.blocks c) :
        @Returns FatState Bool (fun t => writeLoop E fd cs (t.putByte fd c)) u fun failed t =>
          ∃ m, Advanced fd s t m ∧ (failed = false → m = (c :: cs).length) ∧
            (failed = true → m < (c :: cs).length ∧ (m = 0 → ∃ u, turnSector E fd s = .ok (true,u))) ∧
            ∀ c ∈ ks, s.fatfs.entry t.dev.blocks c = s.fatfs.entry s.dev.blocks c := by
      have hgu : u.fatfs.Valid u.dev.size := by rw [hbut.fatfs,hbut.size]; exact hg
      have hput := putByte_after u fd c
      have hone := putByte_advanced (hadv.regular.trans hregular) c
      have hloop := @ih (u.putByte fd c) a' q' ws' ks' hgu (hone.regular.trans (hadv.regular.trans hregular))
        (hu.putByte hgu c) (by rw [hput.file,FileS.put_swell]; exact hin)
      refine Returns.mono hloop fun failed v hv => ?_
      obtain ⟨m,hm,hok,hfail,hothers⟩ := hv
      refine ⟨0 + 1 + m,(hadv.trans hone).trans hm,fun hf => ?_,fun hf => ?_,fun d hd => ?_⟩
      · rw [hok hf,List.length_cons]
        omega
      · have := (hfail hf).1
        rw [List.length_cons]
        exact ⟨by omega,fun hz => absurd hz (by omega)⟩
      · rw [← hentry d hd,← hbut.fatfs]
        exact hothers d (hks d hd)
    rcases ht with ⟨rfl,rfl,hne⟩ | ⟨hend,ht⟩
    · refine returns_ite (by simp) fun _ => ?_
      exact hrest (Std.Refl.refl t) (Advanced.refl fd t) (by omega) (fun _ hc => hc) h fun _ _ => rfl
    · have hadv := ht.advanced hend
      have hentry (d : ℕ) (hd : d ∈ ks) : s.fatfs.entry t.dev.blocks d = s.fatfs.entry s.dev.blocks d :=
        (ht.others d hd).trans (hg.entry_flushed (h.others d hd).1.2 h.at_.dataStart_le)
      refine returns_ite (fun hf => returns_pure ⟨0,hadv,by simp [*],fun _ => ⟨?_,fun _ => ?_⟩,hentry⟩)
        fun hok => ?_
      · rw [List.length_cons]
        omega
      · exact ⟨t,hf ▸ hrun⟩
      · rw [Bool.eq_false_iff.2 hok] at ht
        obtain ⟨hzero,a',ws',ks',q',hks,hw⟩ := ht.onward
        exact hrest ht.but hadv (by omega) hks hw hentry

end Run

/-! ### The bytes in the file -/

/-- The bytes `done` were accepted from position `p` on, and the file with the chain `ws` has them there. -/
structure Filling (fd : Fd) (a : ℕ) (ws : List ℕ) (p : ℕ) (done : List UInt8) (s : FatState) : Prop where
  walks : Walks s.fatfs s.dev.blocks a ws [] (s.fileNum fd).fileSector (s.fileNum fd)
  cursor : (s.fileNum fd).cursor ≤ 512
  place : (s.fileNum fd).offset = p + done.length
  bytes : ∀ i < done.length,
    s.fatfs.content ((s.fileNum fd).flushed s.dev.blocks) ws (p + i) = done.getD i 0
  current : done = [] ∨ (s.fileNum fd).flags.dirty = true ∨ (s.fileNum fd).Loaded s.dev.blocks

section Filling
variable {fd : Fd} {s : FatState} {a p : ℕ} {ws : List ℕ} {done : List UInt8}

/-- Once a byte is accepted, the buffer counts for the sector under the descriptor. -/
theorem Filling.buffer (h : Filling fd a ws p done s) (hne : done ≠ []) :
    (s.fileNum fd).flushed s.dev.blocks (s.fileNum fd).sector = (s.fileNum fd).buffer := by
  rcases h.current.resolve_left hne with hd | hl
  · rw [FileS.flushed,if_pos hd,Function.update_self]
  · unfold FileS.flushed
    split
    · exact Function.update_self ..
    · exact hl.symm

theorem flushed_of_ne {f : FileS} {b : ℕ} (B : ℕ → Sector) (hb : b ≠ f.sector) : f.flushed B b = B b := by
  unfold FileS.flushed
  split
  · exact Function.update_of_ne hb _ _
  · rfl

theorem Filling.putByte (hg : s.fatfs.Valid s.dev.size) (h : Filling fd a ws p done s)
    (hin : (s.fileNum fd).cursor < 512) (c : UInt8) : Filling fd a ws p (done ++ [c]) (s.putByte fd c) := by
  have hput := putByte_after s fd c
  have hfile := hput.file
  rw [FileS.put_swell] at hfile
  have hplace := h.place
  unfold FileS.offset at hplace
  have hview : ((s.putByte fd c).fileNum fd).flushed (s.putByte fd c).dev.blocks =
      Function.update s.dev.blocks (s.fileNum fd).sector ((s.fileNum fd).buffer.set (s.fileNum fd).cursor c) := by
    rw [hfile,hput.blocks]
    rfl
  have hfs : ((s.putByte fd c).fileNum fd).fileSector = (s.fileNum fd).fileSector := by rw [hfile]
  refine ⟨?_,by rw [hfile]; exact hin,?_,fun i hi => ?_,.inr (.inl (by rw [hfile]))⟩
  · rw [hput.fatfs,hput.blocks,hfs]
    exact h.walks.putByte hg c
  · rw [hfile]
    change (s.fileNum fd).fileSector * 512 + ((s.fileNum fd).cursor + 1) = _
    rw [List.length_append,List.length_singleton]
    omega
  rw [hview,hput.fatfs,FatInfo.content]
  have hsector := h.walks.at_.sector
  rw [List.length_append,List.length_singleton] at hi
  by_cases hlast : i = done.length
  · have hdiv : (p + i) / 512 = (s.fileNum fd).fileSector := by omega
    have hmod : (p + i) % 512 = (s.fileNum fd).cursor := by omega
    rw [hdiv,hmod,← hsector,Function.update_self,Sector.get_set,if_pos ⟨rfl,hin⟩,hlast,
      List.getD_append_right _ _ _ _ (Nat.le_refl _),Nat.sub_self,List.getD_cons_zero]
  have hlt : i < done.length := by omega
  rw [List.getD_append _ _ _ _ hlt,← h.bytes i hlt,FatInfo.content]
  by_cases hq : (p + i) / 512 = (s.fileNum fd).fileSector
  · have hne : done ≠ [] := List.ne_nil_of_length_pos (Nat.lt_of_le_of_lt (Nat.zero_le i) hlt)
    rw [hq,← hsector,Function.update_self,Sector.get_set,if_neg (by omega),h.buffer hne]
  · have hin' := h.walks.at_.inside
    have hne : s.fatfs.sectorAt ws ((p + i) / 512) ≠ (s.fileNum fd).sector := by
      rw [hsector]
      intro heq
      exact hq (hg.sectorAt_inj h.walks.chain.inRange h.walks.chain.links.nodup (by omega) hin' heq)
    rw [Function.update_of_ne hne,flushed_of_ne _ hne]

/-- Moving to the next sector of the file. -/
theorem Filling.crossing (hg : s.fatfs.Valid s.dev.size) (h : Filling fd a ws p done s)
    (hend : (s.fileNum fd).cursor = 512) {t : FatState}
    (ht : Crossing fd a ws [] (s.fileNum fd).fileSector ((s.fileNum fd).flushed s.dev.blocks) s t false)
    (hfollows : FileS.Follows s.fatfs (s.fileNum fd) (t.fileNum fd)) :
    ∃ ws', ws <+: ws' ∧ Filling fd a ws' p done t ∧ (t.fileNum fd).cursor < 512 := by
  have hgf := ht.but.fatfs
  cases ht.crossed with
  | leaves _ hlost => exact absurd hfollows hlost
  | @moves ws' _ hlonger hw hfs hcur hload _ =>
    have hspan := hw.chain.span_le hg
    have hinside := hw.at_.inside
    have hfs' : (t.fileNum fd).fileSector = (s.fileNum fd).fileSector + 1 := by
      rw [hfs]
      exact u32_of_lt (by omega)
    have hplace := h.place
    unfold FileS.offset at hplace
    refine ⟨ws',hlonger,⟨?_,by omega,?_,fun i hi => ?_,.inr (.inr (hload rfl))⟩,by omega⟩
    · rw [hgf,hfs']
      exact hw
    · rw [FileS.offset,hfs',hcur,← hplace,hend,Nat.succ_mul,Nat.add_zero]
    · have hq : (p + i) / 512 < s.fatfs.span ws := by
        have := h.walks.at_.inside
        omega
      obtain ⟨ds,rfl⟩ := hlonger
      rw [hgf,← h.bytes i hi,FatInfo.content,FatInfo.content,hg.sectorAt_append hq,FatInfo.sectorAt]
      rw [ht.undisturbed.data _ (by simp only [List.append_nil]; exact hg.getD_mem hq) _
        (Nat.mod_lt _ hg.spc_pos)]

end Filling

theorem passes_cons {E : Env} {fd : Fd} {c : UInt8} {cs : List UInt8} {s t : FatState} {failed : Bool}
    (h : turnSector E fd s = .ok (failed,t)) : Passes E fd (c :: cs) s ↔
      failed = false ∧ FileS.Follows s.fatfs (s.fileNum fd) (t.fileNum fd) ∧ Passes E fd cs (t.putByte fd c) := by
  constructor
  · rintro ⟨u,hu,hfollows,hrest⟩
    obtain ⟨rfl,rfl⟩ : failed = false ∧ t = u := by simpa [h] using hu
    exact ⟨rfl,hfollows,hrest⟩
  · rintro ⟨rfl,hfollows,hrest⟩
    exact ⟨t,h,hfollows,hrest⟩

/-- If every step succeeds, all bytes are accepted and in the file; otherwise the call fails, or it ends behind
the chain of the file. -/
theorem writeLoop_filling {E : Env} (hfuel : 0 < E.fuel) {fd : Fd} {s : FatState} {a p : ℕ} {ws : List ℕ}
    {done : List UInt8} (hg : s.fatfs.Valid s.dev.size) (hregular : (s.fileNum fd).isSubdir = false)
    (h : Filling fd a ws p done s) (bytes : List UInt8) : (writeLoop E fd bytes).Returns s fun failed t =>
      (Passes E fd bytes s → failed = false ∧ ∃ ws', ws <+: ws' ∧ Filling fd a ws' p (done ++ bytes) t) ∧
      (¬ Passes E fd bytes s → failed = true ∨ ∃ ws', s.fatfs.Chain t.dev.blocks a ws' ∧
        s.fatfs.span ws' * 512 < p + done.length + bytes.length) := by
  induction bytes generalizing s ws done with
  | nil =>
    refine returns_pure ⟨fun _ => ⟨rfl,ws,List.prefix_refl ws,?_⟩,fun h => absurd trivial h⟩
    rwa [List.append_nil]
  | cons c cs ih =>
    rw [Returns,writeLoop_cons]
    obtain ⟨failed,t,hrun,ht⟩ := h.walks.turnSector_every hfuel hg
    refine returns_bind_of_ok hrun ?_
    rw [passes_cons hrun]
    -- the byte goes into the file, and the rest follows
    have hrest {u : FatState} {ws' : List ℕ} (hlonger : ws <+: ws') (hbut : SameBut fd s u)
        (hreg : (u.fileNum fd).isSubdir = false) (hu : Filling fd a ws' p done u)
        (hin : (u.fileNum fd).cursor < 512) :
        @Returns FatState Bool (fun t => writeLoop E fd cs (t.putByte fd c)) u fun failed t =>
          (Passes E fd cs (u.putByte fd c) →
            failed = false ∧ ∃ ws', ws <+: ws' ∧ Filling fd a ws' p (done ++ c :: cs) t) ∧
          (¬ Passes E fd cs (u.putByte fd c) → failed = true ∨ ∃ ws', s.fatfs.Chain t.dev.blocks a ws' ∧
            s.fatfs.span ws' * 512 < p + done.length + (c :: cs).length) := by
      have hgu : u.fatfs.Valid u.dev.size := by rw [hbut.fatfs,hbut.size]; exact hg
      have hput := putByte_after u fd c
      have hloop := @ih (u.putByte fd c) ws' (done ++ [c]) hgu
        ((putByte_advanced hreg c).regular.trans hreg) (hu.putByte hgu hin c)
      refine Returns.mono hloop fun failed v hv => ⟨fun hp => ?_,fun hp => ?_⟩
      · obtain ⟨hok,ws'',hl,hf⟩ := hv.1 hp
        rw [List.append_assoc,List.singleton_append] at hf
        exact ⟨hok,ws'',hlonger.trans hl,hf⟩
      · refine (hv.2 hp).imp_right fun h => ?_
        obtain ⟨ws'',hchain,hlt⟩ := h
        refine ⟨ws'',?_,?_⟩
        · rwa [hput.fatfs,hbut.fatfs] at hchain
        · rw [hput.fatfs,hbut.fatfs,List.length_append,List.length_singleton] at hlt
          rw [List.length_cons]
          omega
    rcases ht with ⟨rfl,rfl,hne⟩ | ⟨hend,ht⟩
    · refine returns_ite (by simp) fun _ => ?_
      have hcursor := h.cursor
      refine (hrest (List.prefix_refl ws) (Std.Refl.refl t) hregular h (by omega)).mono fun failed u hu => ?_
      refine ⟨fun hp => hu.1 hp.2.2,fun hp => hu.2 fun hcs => hp ⟨rfl,.inl rfl,hcs⟩⟩
    refine returns_ite (fun hfail => returns_pure ⟨fun hp => ?_,fun _ => .inl rfl⟩) fun hok => ?_
    · exact absurd hp.1 (by simp [hfail])
    obtain rfl := Bool.eq_false_iff.2 hok
    have hadv := ht.advanced hend
    by_cases hfollows : FileS.Follows t.fatfs (s.fileNum fd) (t.fileNum fd)
    · rw [ht.but.fatfs] at hfollows
      obtain ⟨ws',hlonger,hf,hin⟩ := h.crossing hg hend ht hfollows
      refine (hrest hlonger ht.but (hadv.regular.trans hregular) hf hin).mono fun failed u hu => ?_
      exact ⟨fun hp => hu.1 hp.2.2,fun hp => hu.2 fun hcs => hp ⟨rfl,hfollows,hcs⟩⟩
    rw [ht.but.fatfs] at hfollows
    cases ht.crossed with
    | moves _ _ _ _ _ hfol => exact absurd hfol hfollows
    | leaves hlast _ hchain hw hfs hcur =>
      have hgt : t.fatfs.Valid t.dev.size := by rw [ht.but.fatfs,ht.but.size]; exact hg
      have hput := putByte_after t fd c
      have hreg := hadv.regular.trans hregular
      rw [← ht.but.fatfs] at hw
      refine (writeLoop_advanced hfuel (s := t.putByte fd c) hgt ((putByte_advanced hreg c).regular.trans hreg)
        (hw.putByte hgt c) (by rw [hput.file,FileS.put_swell]; change _ + 1 ≤ 512; omega) cs).mono fun failed u hu => ?_
      refine ⟨fun hp => absurd hp.2.1 hfollows,fun _ => .inr ⟨ws,?_,?_⟩⟩
      · obtain ⟨m,-,-,-,hentry⟩ := hu
        refine hchain.congr fun d hd => ?_
        have := hentry d (by simp [hd])
        rwa [hput.fatfs,ht.but.fatfs,hput.blocks] at this
      · have hplace := h.place
        unfold FileS.offset at hplace
        rw [← hlast,List.length_cons]
        omega

/-! ### The call -/

/-- What `fat_write` makes of the result of its loop. -/
theorem fatWrite_of_loop {E : Env} {fd : Fd} {s u : FatState} {bytes : List UInt8} {failed : Bool}
    (hopen : (s.fileNum fd).flags.open_ = true) (hwrite : (s.fileNum fd).flags.write = true)
    (happend : (s.fileNum fd).flags.append = false) (h : writeLoop E fd bytes s = .ok (failed,u)) :
    (failed = true → fatWrite E fd.val bytes s = .ok ((-1,eIo),u)) ∧
      (failed = false → ∃ t now mark, fatWrite E fd.val bytes s = .ok ((i32 bytes.length,0),t) ∧
        After fd u t u.dev.blocks { u.fileNum fd with modified := now, flags.fsDirty := mark }) := by
  have hloop (x : Bool → FatM (ℤ × ℤ)) : (writeLoop E fd bytes >>= x) s = x failed u := bind_of_ok h
  have hcall : fatWrite E fd.val bytes s = (do
      if failed then pure (-1,eIo)
      else
        let _ ← (if 0 < bytes.length then fatUpdateMtime E fd else pure ())
        pure (i32 bytes.length,0) : FatM (ℤ × ℤ)) u := by
    rw [fatWrite,withFd,dif_pos fd.isLt,writeSlot,bind_of_ok rfl,run_ite,if_neg (by simp [hopen,hwrite])]
    simp only [happend]
    exact hloop _
  refine ⟨fun hf => ?_,fun hf => ?_⟩
  · rw [hcall,if_pos hf]
    rfl
  · have htime : (if 0 < bytes.length then fatUpdateMtime E fd else pure ()).Returns u fun _ t => ∃ now mark,
        After fd u t u.dev.blocks { u.fileNum fd with modified := now, flags.fsDirty := mark } :=
      returns_ite (fun _ => (fatUpdateMtime_returns E fd u).mono fun _ t ht => ⟨ht.choose,true,ht.choose_spec⟩)
        fun _ => returns_pure ⟨_,_,After.refl u⟩
    obtain ⟨_,t,hrun,now,mark,ht⟩ := htime
    refine ⟨t,now,mark,?_,ht⟩
    rw [hcall,if_neg (by simp [hf]),bind_of_ok hrun]
    rfl

theorem FatInfo.Chain.span_lt {g : FatInfo} {size a : ℕ} {B : ℕ → Sector} {cs : List ℕ}
    (h : g.Chain B a cs) (hg : g.Valid size) : g.span cs < 2^32 := by
  have h₁ := Nat.mul_le_mul h.length_le (Nat.le_refl g.sectorsPerCluster)
  have h₂ := hg.data
  have h₃ := hg.size
  have h₄ := hg.dataStart_pos
  unfold FatInfo.span
  omega

section Agrees
variable {E : Env} {fd : Fd} {s t : FatState} {ws : List ℕ}

/-- The times of a descriptor are no part of its file. -/
theorem FatState.Contains.of_after {d : List UInt8} {now : ℤ} {mark : Bool} (h : s.Contains fd d)
    (ht : After fd s t s.dev.blocks { s.fileNum fd with modified := now, flags.fsDirty := mark }) :
    t.Contains fd d := by
  obtain ⟨cs,hcs,hsize,hd⟩ := h
  refine ⟨cs,?_,?_,?_⟩
  all_goals rw [ht.fatfs,ht.file]
  · rw [ht.blocks]
    exact hcs
  · exact hsize
  · rw [ht.blocks]
    exact hd

/-- A step that fails moves no byte. -/
theorem Crossing.unchanged (hg : s.fatfs.Valid s.dev.size)
    (h : Walks s.fatfs s.dev.blocks (s.fileNum fd).fullFirstCluster ws [] (s.fileNum fd).fileSector (s.fileNum fd))
    (hend : (s.fileNum fd).cursor = 512) {failed : Bool}
    (ht : Crossing fd (s.fileNum fd).fullFirstCluster ws [] (s.fileNum fd).fileSector
      ((s.fileNum fd).flushed s.dev.blocks) s t failed) :
    (t.fileNum fd).offset = (s.fileNum fd).offset ∧ (t.fileNum fd).size = (s.fileNum fd).size ∧
      ∀ d, s.Contains fd d → t.Contains fd d := by
  have hsize := FileS.field_of_still FileS.size (fun _ => rfl) ht.still
  have hfirst := FileS.field_of_still FileS.fullFirstCluster (fun _ => rfl) ht.still
  have hgf := ht.but.fatfs
  have hmoved (hlt : (s.fileNum fd).fileSector + 1 < 2^32)
      (hfs : (t.fileNum fd).fileSector = u32 ((s.fileNum fd).fileSector + 1))
      (hcur : (t.fileNum fd).cursor = 0) : (t.fileNum fd).offset = (s.fileNum fd).offset := by
    rw [FileS.offset,FileS.offset,hfs,u32_of_lt hlt,hcur,hend,Nat.succ_mul,Nat.add_zero]
  have hchain {ws' : List ℕ} (hlonger : ws <+: ws')
      (hw : s.fatfs.Chain t.dev.blocks (s.fileNum fd).fullFirstCluster ws') (d : List UInt8)
      (hd : s.Contains fd d) : t.Contains fd d := by
    obtain ⟨cs,hcs,hcap,rfl⟩ := hd
    obtain rfl := hcs.links.unique h.chain.links
    obtain ⟨ds,rfl⟩ := hlonger
    refine ⟨cs ++ ds,?_,?_,?_⟩
    · rw [hgf,hfirst]
      exact hw
    · rw [hgf,hsize,FatInfo.span_append]
      exact hcap.trans (Nat.mul_le_mul_right 512 (Nat.le_add_right _ _))
    · rw [hgf,hsize]
      refine List.map_congr_left fun i hi => ?_
      have hq : i / 512 < s.fatfs.span cs := by
        have := List.mem_range.1 hi
        omega
      rw [FatInfo.content,FatInfo.content,hg.sectorAt_append hq,FatInfo.sectorAt]
      rw [ht.undisturbed.data _ (by simp only [List.append_nil]; exact hg.getD_mem hq) _
        (Nat.mod_lt _ hg.spc_pos)]
  cases ht.crossed with
  | stays hw hfs hcur => exact ⟨by rw [FileS.offset,FileS.offset,hfs,hcur],hsize,hchain (List.prefix_refl ws) hw.chain⟩
  | moves hlonger hw hfs hcur =>
    have hlt := hw.chain.span_lt hg
    have hin := hw.at_.inside
    exact ⟨hmoved (by omega) hfs hcur,hsize,hchain hlonger hw.chain⟩
  | leaves hlast _ hold _ hfs hcur =>
    have hlt := hold.span_lt hg
    exact ⟨hmoved (by omega) hfs hcur,hsize,hchain (List.prefix_refl ws) hold⟩

end Agrees

/-- A volume without a free cluster, and its file of one full cluster. -/
def packedVolume : ℕ → Sector
  | 1 => fun _ => 0xFF
  | 2 => Sector.ofBytes [0x41,0x42,0x20,0x20,0x20,0x20,0x20,0x20,0x54,0x58,0x54,0x20,
      0,0,0,0,0,0,0,0,0,0,0,0,0,0,2,0,0,2,0,0]
  | _ => Sector.zero

/-- The file is open for writing, at its last byte. -/
def FatState.atLastByte : FatState := (FatState.mounted smallFat16 300 packedVolume).setFile 0
  { FileS.closed with
    flags := { Flags.none with open_ := true, write := true }
    filename := fun k => (packedVolume 2).get k, extension := fun k => (packedVolume 2).get (8 + k)
    attributes := 0x20
    sector := 3, cluster := 2, cursor := 511, size := 512, fullFirstCluster := 2
    entrySector := 2, parentCluster := 1 }

theorem atLastByte_writesFile : FatState.atLastByte.WritesFile 0 where
  volume := smallFat16_valid
  open_ := rfl
  write := rfl
  append := rfl
  regular := by decide
  size_lt := by decide
  cursor := by decide
  file := by
    have hbehind (c j : ℕ) : 2 ≠ smallFat16.clusterSector c j := by
      have hle := @FatInfo.Valid.dataStart_le smallFat16 c j
      have hstart : smallFat16.dataStart = 3 := by decide
      omega
    refine ⟨[2],by decide,⟨by decide +kernel,by decide +kernel⟩,⟨.last (by decide +kernel),by decide⟩,
      ⟨by decide,rfl,by decide,by decide⟩,by simp,by decide,⟨.inr (by decide),?_,?_⟩⟩
    · exact fun c _ j _ => hbehind c j
    · exact fun c _ _ j _ => hbehind c j

end Gristle
