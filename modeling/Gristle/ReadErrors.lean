import Gristle.Opened

/-! Reading a regular file while block reads may fail: what `fat_read` delivers is the file's content
as long as no read of a data sector has failed before. -/
namespace Gristle
open Prog

/-- Byte `p` of the file with the chain `cs`. -/
def FatInfo.content (g : FatInfo) (B : ℕ → Sector) (cs : List ℕ) (p : ℕ) : UInt8 :=
  (B (g.sectorAt cs (p / 512))).get (p % 512)

/-! ### Moving on while reads may fail -/

/-- The descriptor has moved to the start of sector `q`, whether or not the sector was read. -/
def Moved (g : FatInfo) (cs : List ℕ) (q : ℕ) (B : ℕ → Sector) (f f' : FileS) : Prop :=
  Arrived g cs q B f { f' with buffer := B f'.sector }

/-- A descriptor inside its chain moves to the next sector or stays, and in the latter case
`fat_next_sector` says so. -/
theorem fatNextSector_result {E : Env} {ffi : Fd → FatM ℤ} {fd : Fd} {s t : FatState} {a q : ℕ}
    {cs : List ℕ} {failed : Bool} (h : fatNextSectorWith ffi E fd s = .ok (failed,t))
    (hg : s.fatfs.Valid s.dev.size) (hcs : s.fatfs.Chain s.dev.blocks a cs)
    (hat : (s.fileNum fd).At s.fatfs cs q) (hq : q + 1 < s.fatfs.span cs)
    (hclean : (s.fileNum fd).flags.dirty = false) :
    After fd s t s.dev.blocks (t.fileNum fd) ∧
      (t.fileNum fd = s.fileNum fd ∧ failed = true ∨
        Moved s.fatfs cs (q+1) s.dev.blocks (s.fileNum fd) (t.fileNum fd) ∧
          (failed = false → (t.fileNum fd).Loaded s.dev.blocks)) := by
  rw [fatNextSectorWith,bind_of_ok (fatFlushWith_clean hclean),run_ite,if_neg (by simp),
    bind_of_ok rfl,run_ite] at h
  split at h
  · have hleft : 0 < s.fatfs.sectorsPerCluster - 1 - q % s.fatfs.sectorsPerCluster := by
      rw [← hat.left]
      assumption
    obtain ⟨hdiv,hmod,hnext⟩ := @FatInfo.Valid.sectorAt_succ _ _ hg cs q hleft
    have hlt := (hg.sectorAt_lt hcs.inRange hq).2
    have hle := hg.size
    have hsec : u32 ((s.fileNum fd).sector + 1) = s.fatfs.sectorAt cs (q+1) := by
      rw [hnext,hat.sector]
      exact u32_of_lt (by omega)
    obtain ⟨x,u,hu,h⟩ := bind_ok h
    have hset := updateFile_result hu
    rw [bind_of_ok rfl,hset.file] at h
    have hread := readBuffer_result h
    rw [hset.blocks,hset.file] at hread
    have hmoved (buf : Sector) : Moved s.fatfs cs (q+1) s.dev.blocks (s.fileNum fd)
        { s.fileNum fd with
          sectorsLeft := (s.fileNum fd).sectorsLeft - 1
          fileSector := u32 ((s.fileNum fd).fileSector + 1)
          cursor := 0
          sector := u32 ((s.fileNum fd).sector + 1)
          buffer := buf } := by
      refine ⟨⟨hq,?_,hsec,?_⟩,rfl,rfl,hclean,rfl,?_⟩
      · rw [hdiv]
        exact hat.cluster
      · change (s.fileNum fd).sectorsLeft - 1 = _
        rw [hat.left,hmod]
        omega
      · rfl
    rcases hread with ⟨rfl,hread⟩ | ⟨rfl,hread⟩ <;> have hst := hset.trans hread
    · refine ⟨hst.self,.inr ?_⟩
      rw [hst.file]
      exact ⟨hmoved _,by simp⟩
    · refine ⟨hst.self,.inr ?_⟩
      rw [hst.file]
      exact ⟨hmoved _,fun _ => rfl⟩
  · have hleft : s.fatfs.sectorsPerCluster - 1 - q % s.fatfs.sectorsPerCluster = 0 := by
      rw [← hat.left]
      exact Nat.eq_zero_of_not_pos ‹_›
    have hposition := hg.position_succ hleft
    obtain ⟨hi,hcluster⟩ := hat.getElem hg
    have hi' : q / s.fatfs.sectorsPerCluster + 1 < cs.length := by
      rw [hposition,FatInfo.span] at hq
      exact Nat.lt_of_mul_lt_mul_right hq
    have hrange := hat.inRange hg hcs.inRange
    have hne : (s.fileNum fd).cluster ≠ 1 := by
      have := hrange.1
      omega
    obtain ⟨⟨c,e⟩,u,hu,h⟩ := bind_ok h
    rw [fatNextClusterWith,bind_of_ok (fatFlushWith_clean hclean),run_ite,if_neg (by simp),
      bind_of_ok rfl,bind_of_ok rfl,run_ite,if_neg hne] at hu
    obtain ⟨failed',v,hv,hu⟩ := bind_ok hu
    have hread := readBuffer_result hv
    rcases hread with ⟨rfl,hread⟩ | ⟨rfl,hread⟩
    · obtain ⟨hce,rfl⟩ := pure_ok hu
      obtain ⟨rfl,-⟩ := Prod.mk.inj hce
      simp only [run_ite] at h
      rw [if_neg (by decide)] at h
      obtain ⟨rfl,rfl⟩ := pure_ok h
      exact ⟨hread.self,.inl ⟨hread.file,rfl⟩⟩
    · rw [run_ite,if_neg (by simp),bind_of_ok rfl,hread.file] at hu
      have hentry := hcs.links.next_getElem hi'
      rw [← hcluster,FatInfo.next] at hentry
      split at hentry
      · simp at hentry
      · have hval := Option.some.inj hentry
        have hd := hcs.inRange _ (List.getElem_mem hi')
        have hd₂ := hd.1
        have hdlt := hd.2
        have hle := hg.entries_le
        simp only [entryAt_block,hval] at hu
        rw [run_ite,if_neg (by omega),run_ite,if_neg (by rw [← hval]; assumption)] at hu
        obtain ⟨hce,rfl⟩ := pure_ok hu
        obtain ⟨rfl,-⟩ := Prod.mk.inj hce
        rw [i32_of_lt (by omega)] at h
        simp only [run_ite] at h
        rw [if_pos (Int.lt_of_lt_of_le (by decide) (Int.natCast_nonneg _)),Int.toNat_natCast] at h
        obtain ⟨x,w,hw,h⟩ := bind_ok h
        have hset := updateFile_result hw
        rw [hread.blocks,hread.file] at hset
        obtain ⟨buf,hsel,hbuf⟩ := fatSelectCluster_result h
        have hsv := hread.trans hset
        rw [hsv.fatfs,hsv.blocks,hset.file] at hsel hbuf
        have hst := hsv.trans hsel
        refine ⟨hst.self,.inr ?_⟩
        rw [hst.file]
        have hselect := hg.select_at hcs.inRange hi' { s.fileNum fd with
          buffer := s.dev.blocks (s.fatfs.entryBlock (s.fileNum fd).cluster)
          fileSector := u32 ((s.fileNum fd).fileSector + 1) }
        have hone : cs[q / s.fatfs.sectorsPerCluster + 1] ≠ 1 := by omega
        rw [← hposition] at hselect
        refine ⟨⟨⟨hselect.1.inside,hselect.1.cluster,hselect.1.sector,hselect.1.left⟩,hselect.2,rfl,?_,?_,?_⟩,hbuf⟩
        all_goals rw [FileS.select,if_neg hone]
        · exact hclean
        · rfl

/-! ### Reading -/

/-- A clean descriptor of a regular file of `n` bytes at position `p`, which lies in the chain `cs` if
the file has any bytes. -/
structure Reading (g : FatInfo) (B : ℕ → Sector) (cs : List ℕ) (n p : ℕ) (f : FileS) : Prop where
  clean : f.flags.dirty = false
  regular : f.isSubdir = false
  size : f.size = n
  size_lt : f.size < 2^32
  le : p ≤ f.size
  position : p = f.fileSector * 512 + f.cursor
  cursor : f.cursor ≤ 512
  place : f.size = 0 ∨ g.Chain B f.fullFirstCluster cs ∧ f.size ≤ g.span cs * 512 ∧
    f.At g cs f.fileSector

instance (B : ℕ → Sector) (f : FileS) : Decidable (f.Loaded B) :=
  decidable_of_iff (∀ i < blockSize, f.buffer.get i = (B f.sector).get i)
    ⟨Sector.ext_get,fun h _ _ => congrFun (congrArg Sector.get h) _⟩

/-- The next byte, if there is one, does not come from a buffer that holds another sector. -/
def FileS.Intact (B : ℕ → Sector) (f : FileS) : Prop :=
  f.size ≤ f.position ∨ f.cursor = 512 ∨ f.Loaded B

theorem Reading.position_eq {g : FatInfo} {B : ℕ → Sector} {cs : List ℕ} {n p : ℕ} {f : FileS}
    (h : Reading g B cs n p f) : f.position = p := by
  have h₁ := h.le
  have h₂ := h.size_lt
  have h₃ := h.position
  change u32 (f.cursor + f.fileSector * 512) = p
  rw [u32_of_lt (by omega),h₃,Nat.add_comm]

/-- Moving to the next sector does not move the position. -/
theorem Reading.moved {g : FatInfo} {size : ℕ} (hg : g.Valid size) {B : ℕ → Sector} {cs : List ℕ}
    {n p : ℕ} {f f' : FileS} (h : Reading g B cs n p f) (hpos : 0 < f.size) (hcursor : f.cursor = 512)
    (hm : Moved g cs (f.fileSector + 1) B f f') : Reading g B cs n p f' := by
  obtain ⟨hcs,hcap,hat⟩ := h.place.resolve_left (by omega)
  have hle := hcs.span_le hg
  have hin : f.fileSector + 1 < g.span cs := hm.at_.inside
  have hsector : f'.fileSector = f.fileSector + 1 := by
    have : f'.fileSector = u32 (f.fileSector + 1) := hm.fileSector
    rw [this]
    exact u32_of_lt (by omega)
  have hstill : f'.still = f.still := hm.still
  have hsize := FileS.field_of_still FileS.size (fun _ => rfl) hstill
  have hfirst := FileS.field_of_still FileS.fullFirstCluster (fun _ => rfl) hstill
  have hsub := FileS.field_of_still FileS.isSubdir (fun _ => rfl) hstill
  have hzero : f'.cursor = 0 := hm.cursor
  have hp := h.position
  refine ⟨hm.clean,hsub.trans h.regular,hsize.trans h.size,hsize.trans_lt h.size_lt,h.le.trans_eq hsize.symm,?_,by omega,
    .inr ?_⟩
  · rw [hsector,hzero,Nat.succ_mul,Nat.add_zero,hp,hcursor]
  · rw [hfirst,hsize,hsector]
    exact ⟨hcs,hcap,⟨hm.at_.inside,hm.at_.cluster,hm.at_.sector,hm.at_.left⟩⟩

/-- One byte from the buffer. -/
theorem Reading.byte {g : FatInfo} {B : ℕ → Sector} {cs : List ℕ} {n p : ℕ} {f : FileS}
    (h : Reading g B cs n p f) (hlt : p < f.size) (hcursor : f.cursor ≠ 512) (hl : f.Loaded B) :
    f.buffer.get f.cursor = g.content B cs p ∧
      Reading g B cs n (p+1) { f with cursor := f.cursor + 1 } := by
  obtain ⟨hcs,hcap,hat⟩ := h.place.resolve_left (by omega)
  have hp := h.position
  have hc := h.cursor
  have hdiv : p / 512 = f.fileSector := by omega
  have hmod : p % 512 = f.cursor := by omega
  refine ⟨?_,⟨h.clean,h.regular,h.size,h.size_lt,hlt,?_,?_,.inr ⟨hcs,hcap,
    hat.inside,hat.cluster,hat.sector,hat.left⟩⟩⟩
  · rw [FatInfo.content,hdiv,hmod,← hat.sector,hl]
  · change p + 1 = f.fileSector * 512 + (f.cursor + 1)
    omega
  · change f.cursor + 1 ≤ 512
    omega

theorem content_cons {c : UInt8} {bytes : List UInt8} {u : ℕ → UInt8} {p : ℕ} (hc : c = u p)
    (h : bytes = (List.range bytes.length).map fun i => u (p + 1 + i)) :
    c :: bytes = (List.range (c :: bytes).length).map fun i => u (p + i) := by
  rw [List.length_cons,List.range_succ_eq_map,List.map_cons,List.map_map,Nat.add_zero,hc]
  congr 1
  rw [h]
  simp only [List.length_map,List.length_range]
  refine List.map_congr_left fun i _ => ?_
  change u (p + 1 + i) = u (p + (i + 1))
  rw [Nat.add_assoc,Nat.add_comm 1 i]

/-- The bytes one call delivers follow each other in the file. -/
theorem readLoop_content {E : Env} {fd : Fd} {n size p : ℕ} {cs : List ℕ} {s t : FatState}
    {bytes : List UInt8} (h : readLoop E fd n s = .ok (bytes,t)) (hg : s.fatfs.Valid s.dev.size)
    (hr : Reading s.fatfs s.dev.blocks cs size p (s.fileNum fd)) (hi : (s.fileNum fd).Intact s.dev.blocks) :
    After fd s t s.dev.blocks (t.fileNum fd) ∧
      Reading s.fatfs s.dev.blocks cs size (p + bytes.length) (t.fileNum fd) ∧
      bytes = (List.range bytes.length).map fun i => s.fatfs.content s.dev.blocks cs (p + i) := by
  induction n generalizing s p bytes with
  | zero =>
    obtain ⟨rfl,rfl⟩ := pure_ok h
    exact ⟨After.refl t,hr,rfl⟩
  | succ n ih =>
    rw [readLoop,bind_of_ok rfl,run_ite] at h
    split at h
    · obtain ⟨rfl,rfl⟩ := pure_ok h
      exact ⟨After.refl t,hr,rfl⟩
    have hlt : p < (s.fileNum fd).size := by
      have hend := ‹¬ _›
      rw [not_and,hr.position_eq,Nat.not_le] at hend
      exact hend hr.regular
    obtain ⟨hcs,hcap,hat⟩ := hr.place.resolve_left (by omega)
    -- what is left to do once the buffer holds the sector
    have hcontinue {u : FatState} (hu : After fd s u s.dev.blocks (u.fileNum fd))
        (hru : Reading s.fatfs s.dev.blocks cs size p (u.fileNum fd)) (hltu : p < (u.fileNum fd).size)
        (hcu : (u.fileNum fd).cursor ≠ 512) (hlu : (u.fileNum fd).Loaded s.dev.blocks)
        (h : (do
          let f ← file fd
          updateFile fd fun f => { f with cursor := f.cursor + 1 }
          let bytes ← readLoop E fd n
          pure (f.buffer.get f.cursor :: bytes)) u = .ok (bytes,t)) :
        After fd s t s.dev.blocks (t.fileNum fd) ∧
          Reading s.fatfs s.dev.blocks cs size (p + bytes.length) (t.fileNum fd) ∧
          bytes = (List.range bytes.length).map fun i => s.fatfs.content s.dev.blocks cs (p + i) := by
      rw [bind_of_ok rfl] at h
      obtain ⟨_,v,hv,h⟩ := bind_ok h
      obtain ⟨rest,w,hw,h⟩ := bind_ok h
      obtain ⟨rfl,rfl⟩ := pure_ok h
      have hv := updateFile_result hv
      have hsv := hu.trans (hu.blocks ▸ hv)
      obtain ⟨hbyte,hnext⟩ := hru.byte hltu hcu hlu
      have hloop := ih hw (by rw [hsv.fatfs,hsv.size]; exact hg)
        (by rw [hsv.fatfs,hsv.blocks,hv.file]; exact hnext)
        (by rw [hsv.blocks,hv.file]; exact .inr (.inr hlu))
      rw [hsv.fatfs,hsv.blocks] at hloop
      obtain ⟨ha,hread,hrest⟩ := hloop
      refine ⟨hsv.trans ha,?_,content_cons hbyte hrest⟩
      rw [List.length_cons,Nat.add_comm rest.length 1,← Nat.add_assoc]
      exact hread
    obtain ⟨failed,u,hu,h₁⟩ := bind_ok h
    rw [run_ite] at h₁
    by_cases hcursor : (s.fileNum fd).cursor = blockSize
    · rw [if_pos hcursor] at hu
      have hin : (s.fileNum fd).fileSector + 1 < s.fatfs.span cs := by
        have hp := hr.position
        change (s.fileNum fd).cursor = 512 at hcursor
        omega
      obtain ⟨ha,hres⟩ := fatNextSector_result hu hg hcs hat hin hr.clean
      have hru : Reading s.fatfs s.dev.blocks cs size p (u.fileNum fd) := by
        rcases hres with ⟨heq,-⟩ | ⟨hm,-⟩
        · rw [heq]
          exact hr
        · exact hr.moved hg (by omega) hcursor hm
      split at h₁
      · obtain ⟨rfl,rfl⟩ := pure_ok h₁
        exact ⟨ha,hru,rfl⟩
      · have hsucc := Bool.eq_false_iff.2 ‹_›
        rcases hres with ⟨-,hfail⟩ | ⟨hm,hload⟩
        · rw [hsucc] at hfail
          exact absurd hfail (by decide)
        · have hsize := FileS.field_of_still FileS.size (fun _ => rfl) hm.still
          have hzero : (u.fileNum fd).cursor = 0 := hm.cursor
          refine hcontinue ha hru ?_ (by omega) (hload hsucc) h₁
          exact hlt.trans_eq hsize.symm
    · rw [if_neg hcursor] at hu
      obtain ⟨rfl,rfl⟩ := pure_ok hu
      have hload := (hi.resolve_left (by rw [hr.position_eq]; omega)).resolve_left hcursor
      rw [if_neg Bool.false_ne_true] at h₁
      exact hcontinue (After.refl u) hr hlt hcursor hload h₁

/-- The access date is no part of what reading depends on. -/
theorem fatUpdateAtime_reading {E : Env} {fd : Fd} {size p : ℕ} {cs : List ℕ} {s t : FatState} {a : Unit}
    (h : fatUpdateAtime E fd s = .ok (a,t))
    (hr : Reading s.fatfs s.dev.blocks cs size p (s.fileNum fd)) :
    After fd s t s.dev.blocks (t.fileNum fd) ∧
      Reading s.fatfs s.dev.blocks cs size p (t.fileNum fd) := by
  obtain ⟨now,u,hu,h⟩ := bind_ok h
  have hu := (time_result hu).after fd
  rw [bind_of_ok rfl,run_ite,hu.file] at h
  split at h
  · obtain ⟨now,v,hv,h⟩ := bind_ok h
    have hv := (time_result hv).after fd
    have hw := updateFile_result h
    rw [hu.blocks,hu.file] at hv
    rw [hv.blocks,hv.file] at hw
    refine ⟨(hu.trans (hv.trans hw)).self,?_⟩
    rw [hw.file]
    obtain ⟨h₁,h₂,h₃,h₄,h₅,h₆,h₇,h₈⟩ := hr
    exact ⟨h₁,h₂,h₃,h₄,h₅,h₆,h₇,h₈.imp_right fun ⟨a,b,c⟩ => ⟨a,b,c.inside,c.cluster,c.sector,c.left⟩⟩
  · obtain ⟨-,rfl⟩ := pure_ok h
    refine ⟨hu.self,?_⟩
    rw [hu.file]
    exact hr

theorem fatRead_content {E : Env} {fd : Fd} {count size p : ℕ} {cs : List ℕ} {s t : FatState} {r e : ℤ}
    {bytes : List UInt8} (h : fatRead E fd.val count s = .ok ((r,e,bytes),t))
    (hg : s.fatfs.Valid s.dev.size) (hr : Reading s.fatfs s.dev.blocks cs size p (s.fileNum fd))
    (hi : (s.fileNum fd).Intact s.dev.blocks) :
    After fd s t s.dev.blocks (t.fileNum fd) ∧
      Reading s.fatfs s.dev.blocks cs size (p + bytes.length) (t.fileNum fd) ∧
      bytes = (List.range bytes.length).map fun i => s.fatfs.content s.dev.blocks cs (p + i) := by
  rw [fatRead,withFd,dif_pos fd.isLt,readSlot,bind_of_ok rfl,run_ite] at h
  split at h
  · obtain ⟨heq,rfl⟩ := pure_ok h
    obtain ⟨-,heq⟩ := Prod.mk.inj heq
    obtain ⟨-,rfl⟩ := Prod.mk.inj heq
    exact ⟨After.refl t,hr,rfl⟩
  obtain ⟨bytes',u,hu,h⟩ := bind_ok h
  obtain ⟨_,v,hv,h⟩ := bind_ok h
  obtain ⟨heq,rfl⟩ := pure_ok h
  obtain ⟨-,heq⟩ := Prod.mk.inj heq
  obtain ⟨-,rfl⟩ := Prod.mk.inj heq
  obtain ⟨hsu,hru,hbytes⟩ := readLoop_content hu hg hr hi
  rw [run_ite] at hv
  split at hv
  · obtain ⟨huv,hrv⟩ := fatUpdateAtime_reading hv (by rw [hsu.fatfs,hsu.blocks]; exact hru)
    rw [hsu.blocks] at huv
    rw [hsu.fatfs,hsu.blocks] at hrv
    exact ⟨hsu.trans huv,hrv,hbytes⟩
  · obtain ⟨-,rfl⟩ := pure_ok hv
    exact ⟨hsu,hru,hbytes⟩

/-! ### Runs of reads -/

/-- A call of `fat_read`, as its count and the bytes it delivers, from an intact descriptor. -/
def ReadStep (E : Env) (fd : Fd) (s : FatState) (c : ℕ × List UInt8) (t : FatState) : Prop :=
  (s.fileNum fd).Intact s.dev.blocks ∧ ∃ r e, fatRead E fd.val c.1 s = .ok ((r,e,c.2),t)

/-- The bytes of a file. -/
def FatInfo.fileBytes (g : FatInfo) (B : ℕ → Sector) (cs : List ℕ) (size : ℕ) : List UInt8 :=
  (List.range size).map (g.content B cs)

theorem reads_content {E : Env} {fd : Fd} {cs : List ℕ} {s t : FatState} {size p : ℕ}
    {log : List (ℕ × List UInt8)} (hrun : Steps (ReadStep E fd) s log t)
    (hg : s.fatfs.Valid s.dev.size) (hr : Reading s.fatfs s.dev.blocks cs size p (s.fileNum fd)) :
    p + (log.flatMap Prod.snd).length ≤ size ∧
      log.flatMap Prod.snd = (List.range (log.flatMap Prod.snd).length).map fun i =>
        s.fatfs.content s.dev.blocks cs (p + i) := by
  induction hrun generalizing p with
  | nil s => exact ⟨hr.le.trans_eq hr.size,rfl⟩
  | @cons s t u c rest head tail ih =>
    obtain ⟨hi,r,e,h⟩ := head
    obtain ⟨ha,hrt,hbytes⟩ := fatRead_content h hg hr hi
    have hrest := @ih (p + c.2.length) (by rw [ha.fatfs,ha.size]; exact hg)
      (by rw [ha.fatfs,ha.blocks]; exact hrt)
    rw [ha.fatfs,ha.blocks] at hrest
    obtain ⟨hle,heq⟩ := hrest
    rw [List.flatMap_cons,List.length_append]
    refine ⟨by omega,?_⟩
    rw [List.range_add,List.map_append,List.map_map,← hbytes]
    congr 1
    rw [heq]
    simp only [List.length_map,List.length_range]
    refine List.map_congr_left fun i _ => ?_
    simp only [Function.comp_apply,Nat.add_assoc]

/-- The descriptor's file is a regular one, with a chain `cs` long enough for its size. -/
def FatInfo.Holds (g : FatInfo) (B : ℕ → Sector) (cs : List ℕ) (f : FileS) : Prop :=
  f.isSubdir = false ∧ (f.size = 0 ∨ g.Chain B f.fullFirstCluster cs ∧ f.size ≤ g.span cs * 512)

/-- A descriptor opened without write access starts at position 0. -/
theorem open_reading {E : Env} {name : List UInt8} {flags : OpenFlags} {mode : ℕ} {e e' : ℤ}
    {s t : FatState} {fd : Fd} {cs : List ℕ} (hflags : flags.wronly = false ∧ flags.rdwr = false)
    (hopen : fatOpen E name flags mode e s = .ok ((fd.val,e'),t)) (hg : t.fatfs.Valid t.dev.size)
    (hholds : t.fatfs.Holds t.dev.blocks cs (t.fileNum fd)) :
    Reading t.fatfs t.dev.blocks cs (t.fileNum fd).size 0 (t.fileNum fd) := by
  have hro := fatOpen_readOnlyAt hflags hopen
  have hstart := (fatOpen_started hflags hopen).1
  obtain ⟨hregular,hchain⟩ := hholds
  refine ⟨hro.quiet.clean,hregular,rfl,hro.fits.size,Nat.zero_le _,?_,?_,?_⟩
  · rw [hstart.fileSector,hstart.cursor]
  · rw [hstart.cursor]
    exact Nat.zero_le _
  · refine hchain.elim .inl fun ⟨hcs,hcap⟩ => hstart.place.imp And.left fun ⟨_,hselect,_⟩ => ⟨hcs,hcap,?_⟩
    have hpos := hcs.links.length_pos
    have hhead : cs[0] = (t.fileNum fd).fullFirstCluster := by
      have := hcs.links.getElem_zero
      rw [List.getElem?_eq_getElem hpos] at this
      exact Option.some.inj this
    have hat := (hg.select_at hcs.inRange hpos (t.fileNum fd)).1
    rw [hhead,hselect,Nat.zero_mul] at hat
    rw [hstart.fileSector]
    exact hat

/-- Whatever block reads fail, calls of `fat_read` that each start from an intact descriptor deliver
a prefix of the file. -/
theorem reads_deliver_prefix {E : Env} {name : List UInt8} {flags : OpenFlags} {mode : ℕ} {e e' : ℤ}
    {s t u : FatState} {fd : Fd} {cs : List ℕ} {log : List (ℕ × List UInt8)}
    (hflags : flags.wronly = false ∧ flags.rdwr = false)
    (hopen : fatOpen E name flags mode e s = .ok ((fd.val,e'),t)) (hg : t.fatfs.Valid t.dev.size)
    (hholds : t.fatfs.Holds t.dev.blocks cs (t.fileNum fd)) (hrun : Steps (ReadStep E fd) t log u) :
    log.flatMap Prod.snd <+: t.fatfs.fileBytes t.dev.blocks cs (t.fileNum fd).size := by
  obtain ⟨hle,hbytes⟩ := reads_content hrun hg (open_reading hflags hopen hg hholds)
  rw [Nat.zero_add] at hle
  obtain ⟨k,hk⟩ := Nat.exists_eq_add_of_le hle
  rw [hbytes,FatInfo.fileBytes,hk,List.range_add,List.map_append]
  simp only [Nat.zero_add]
  exact List.prefix_append _ _

/-- Three bytes and then the rest of the small file. -/
theorem reads_deliver_file :
    let E := Env.calm (fun _ => 90) 8
    ∃ t u : FatState, ∃ log : List (ℕ × List UInt8),
      fatOpen E oneFilePath oRdonly 0 0 (.mounted smallFat16 300 oneFile) = .ok ((0,0),t) ∧
      Steps (ReadStep E 0) t log u ∧ log.map Prod.fst = [3,9] ∧
      (log.flatMap Prod.snd).length = 5 ∧
      log.flatMap Prod.snd <+: t.fatfs.fileBytes t.dev.blocks [2] (t.fileNum 0).size := by
  intro E
  have hrun : Prog.test (do
      let p ← fatOpen E oneFilePath oRdonly 0 0
      let s₁ ← get
      let a ← fatRead E 0 3
      let s₂ ← get
      let b ← fatRead E 0 9
      pure (decide (p = (0,0) ∧ s₁.fatfs = smallFat16 ∧ s₁.dev.size = 300 ∧
          (s₁.fileNum 0).isSubdir = false ∧ (s₁.fileNum 0).size = 5 ∧
          (s₁.fileNum 0).fullFirstCluster = 2 ∧ 0xFFF0 ≤ smallFat16.entry s₁.dev.blocks 2 ∧
          (s₁.fileNum 0).Loaded s₁.dev.blocks ∧ (s₂.fileNum 0).Loaded s₂.dev.blocks),
        a.2.2.length + b.2.2.length)) (.mounted smallFat16 300 oneFile)
      (fun a _ => a.1 && a.2 == 5) = true := by
    decide +kernel
  obtain ⟨a,u,hx,hp⟩ := ok_of_test hrun
  obtain ⟨p,s₁,hopen,h₁⟩ := bind_ok hx
  rw [bind_of_ok rfl] at h₁
  obtain ⟨⟨r₁,e₁,x⟩,s₂,hread₁,h₂⟩ := bind_ok h₁
  rw [bind_of_ok rfl] at h₂
  obtain ⟨⟨r₂,e₂,y⟩,s₃,hread₂,h₃⟩ := bind_ok h₂
  obtain ⟨rfl,rfl⟩ := pure_ok h₃
  simp only [Bool.and_eq_true,decide_eq_true_eq,beq_iff_eq] at hp
  obtain ⟨⟨rfl,hg,hsize,hreg,hfile,hfirst,hmark,hload₁,hload₂⟩,hlength⟩ := hp
  have hvalid : s₁.fatfs.Valid s₁.dev.size := by
    rw [hg,hsize]
    exact smallFat16_valid
  have hchain : smallFat16.Chain s₁.dev.blocks 2 [2] :=
    ⟨.last (by rw [FatInfo.next]; exact if_pos hmark),by decide⟩
  have hsteps : Steps (ReadStep E 0) s₁ [(3,x),(9,y)] u :=
    .cons ⟨.inr (.inr hload₁),r₁,e₁,hread₁⟩ (.cons ⟨.inr (.inr hload₂),r₂,e₂,hread₂⟩ (.nil _))
  refine ⟨s₁,u,_,hopen,hsteps,rfl,by simpa using hlength,
    reads_deliver_prefix (by decide) hopen hvalid ⟨hreg,.inr ⟨?_,?_⟩⟩ hsteps⟩
  · rw [hg,hfirst]
    exact hchain
  · rw [hg,hfile]
    decide

/-- The small volume with the file `/AB.TXT` of 513 bytes in the clusters 2 and 3. -/
def twoClusters : ℕ → Sector
  | 1 => Sector.ofBytes [0xF8,0xFF,0xFF,0xFF,0x03,0x00,0xFF,0xFF]
  | 2 => Sector.ofBytes [0x41,0x42,0x20,0x20,0x20,0x20,0x20,0x20,0x54,0x58,0x54,0x20,
      0,0,0,0,0,0,0,0,0,0,0,0,0,0,2,0,1,2,0,0]
  | _ => Sector.zero

/-- The seventh question put to the surroundings is answered by a failing transfer. -/
def Env.oneReadFails : Env := { Env.calm (fun _ => 90) 8 with readFails := fun n => n == 6 }

/-- After the read of the second sector has failed, reading again delivers a byte of the allocation
table. -/
theorem read_delivers_table_byte :
    ∃ t u : FatState, ∃ log : List (ℕ × List UInt8),
      fatOpen .oneReadFails oneFilePath oRdonly 0 0 (.mounted smallFat16 300 twoClusters) =
        .ok ((0,0),t) ∧ t.fatfs.Valid t.dev.size ∧
      t.fatfs.Holds t.dev.blocks [2,3] (t.fileNum 0) ∧
      Steps (fun s c t => ∃ r e, fatRead .oneReadFails 0 c.1 s = .ok ((r,e,c.2),t)) t log u ∧
      ¬ log.flatMap Prod.snd <+: t.fatfs.fileBytes t.dev.blocks [2,3] (t.fileNum 0).size := by
  have hrun : Prog.test (do
      let p ← fatOpen .oneReadFails oneFilePath oRdonly 0 0
      let s₁ ← get
      let a ← fatRead .oneReadFails 0 512
      let b ← fatRead .oneReadFails 0 1
      let c ← fatRead .oneReadFails 0 1
      pure (decide (p = (0,0) ∧ s₁.fatfs = smallFat16 ∧ s₁.dev.size = 300 ∧
          (s₁.fileNum 0).isSubdir = false ∧ (s₁.fileNum 0).size = 513 ∧
          (s₁.fileNum 0).fullFirstCluster = 2 ∧ smallFat16.entry s₁.dev.blocks 2 = 3 ∧
          0xFFF0 ≤ smallFat16.entry s₁.dev.blocks 3 ∧
          smallFat16.content s₁.dev.blocks [2,3] 512 = 0),
        decide (a.2.2.length = 512 ∧ b.2.2 = [] ∧ c.2.2 = [0xF8])))
      (.mounted smallFat16 300 twoClusters) (fun a _ => a.1 && a.2) = true := by
    decide +kernel
  obtain ⟨a,u,hx,hp⟩ := ok_of_test hrun
  obtain ⟨p,s₁,hopen,h₁⟩ := bind_ok hx
  rw [bind_of_ok rfl] at h₁
  obtain ⟨⟨r₁,e₁,x⟩,s₂,hread₁,h₂⟩ := bind_ok h₁
  obtain ⟨⟨r₂,e₂,y⟩,s₃,hread₂,h₃⟩ := bind_ok h₂
  obtain ⟨⟨r₃,e₃,z⟩,s₄,hread₃,h₄⟩ := bind_ok h₃
  obtain ⟨rfl,rfl⟩ := pure_ok h₄
  simp only [Bool.and_eq_true,decide_eq_true_eq] at hp
  obtain ⟨⟨rfl,hg,hsize,hreg,hfile,hfirst,hlink,hmark,hbyte⟩,hx512,rfl,rfl⟩ := hp
  refine ⟨s₁,u,[(512,x),(1,[]),(1,[0xF8])],hopen,?_,⟨hreg,.inr ⟨?_,?_⟩⟩,
    .cons ⟨r₁,e₁,hread₁⟩ (.cons ⟨r₂,e₂,hread₂⟩ (.cons ⟨r₃,e₃,hread₃⟩ (.nil _))),fun hprefix => ?_⟩
  · rw [hg,hsize]
    exact smallFat16_valid
  · rw [hg,hfirst]
    refine ⟨.cons (b := 3) ?_ (.last ?_),by decide⟩ <;> rw [FatInfo.next]
    · rw [hlink]
      rfl
    · exact if_pos hmark
  · rw [hg,hfile]
    decide
  · rw [hg,hfile] at hprefix
    have hlast := hprefix.getElem (i := 512) (by simp [hx512])
    simp [FatInfo.fileBytes,hx512,hbyte] at hlast

end Gristle
