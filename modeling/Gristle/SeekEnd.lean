import Gristle.Open
import Gristle.ReadErrors
import Gristle.Seek

/-! Seeking to the end of a regular file. Inside its last cluster every seek and every read of a
descriptor stays in the chain of the file; the byte behind a full last cluster is not in it. -/
namespace Gristle
open Prog

/-! ### The descriptor after `fat_open` -/

theorem truncateFile_size {E : Env} {fd : Fd} {s t : FatState} {a : Unit}
    (h : truncateFile E fd s = .ok (a,t)) : (t.fileNum fd).size = 0 := by
  rw [truncateFile,bind_of_ok rfl] at h
  obtain ⟨r,u,-,h⟩ := bind_ok h
  obtain ⟨_,v,hv,h⟩ := bind_ok h
  obtain ⟨now,w,hw,h⟩ := bind_ok h
  obtain ⟨_,x,hx,h⟩ := bind_ok h
  obtain ⟨now',y,hy,h⟩ := bind_ok h
  rw [(updateFile_result h).file,congrFun (time_result hy).table.fileNum fd,(updateFile_result hx).file,
    congrFun (time_result hw).table.fileNum fd,(updateFile_result hv).file]
  rfl

/-- What `fat_open` does to the descriptor of a file it finds and does not truncate. -/
theorem openExisting_kept {E : Env} {fd : Fd} {flags : OpenFlags} {e : ℤ} {s t : FatState} {p : ℤ × ℤ}
    (h : openExisting E fd flags e s = .ok (p,t)) (hp : p.1 ≠ -1)
    (hkept : flags.trunc = false ∨ (t.fileNum fd).size ≠ 0) :
    After fd s t s.dev.blocks { s.fileNum fd with fileSector := 0 } := by
  have hstart {q : ℤ × ℤ} {u : FatState}
      (h : (updateFile fd (fun f => { f with fileSector := 0 }) >>= fun _ => pure q) u = .ok (p,t)) :
      After fd u t u.dev.blocks { u.fileNum fd with fileSector := 0 } := by
    obtain ⟨_,x,hx,h⟩ := bind_ok h
    obtain ⟨-,rfl⟩ := pure_ok h
    exact updateFile_result hx
  rw [openExisting,bind_of_ok rfl,bind_of_ok rfl] at h
  simp only [run_ite] at h
  split at h
  · exact absurd (refuse_result h) hp
  split at h
  · exact hstart h
  split at h
  · exact absurd (refuse_result h) hp
  split at h
  · exact absurd (refuse_result h) hp
  split at h
  · split at h
    · exact hstart h
    · exact absurd (refuse_result h) hp
  obtain ⟨_,x,hx,hrest⟩ := bind_ok h
  rw [run_ite] at hx
  split at hx
  · rename_i htrunc
    refine absurd ?_ (hkept.resolve_left (by simp [htrunc]))
    rw [(hstart hrest).file]
    exact truncateFile_size hx
  · obtain ⟨-,rfl⟩ := pure_ok hx
    exact hstart hrest

/-- A descriptor handed out for a file with bytes is the one the lookup leaves, but for its flags. -/
theorem fatOpen_kept {E : Env} {name : List UInt8} {flags : OpenFlags} {mode : ℕ} {e e' : ℤ}
    {s t : FatState} {fd : Fd} (h : fatOpen E name flags mode e s = .ok ((fd.val,e'),t))
    (hsize : (t.fileNum fd).size ≠ 0) : ∃ e₁ u, fatLookupPath E fd name e (s.taken fd) = .ok ((0,e₁),u) ∧
      After fd u t u.dev.blocks
        { u.fileNum fd with flags := (u.fileNum fd).flags.access flags, fileSector := 0 } := by
  have hne : (fd.val : ℤ) ≠ -1 := by omega
  obtain ⟨o,u,ho,h₁⟩ := bind_ok h
  cases o with
  | none => exact absurd (congrArg Prod.fst (pure_ok h₁).1) hne
  | some r =>
    obtain ⟨⟨i,e₁⟩,v,hv,h₂⟩ := bind_ok h₁
    obtain ⟨a,w,hw,h₃⟩ := bind_ok h₂
    obtain ⟨-,rfl⟩ := nextFileLoop_some ho
    have hafter := updateFile_result hw
    have hslot {q : ℤ × ℤ} (hq : q.1 = -1 ∨ q.1 = r.val) (hr : q.1 = fd.val) : fd = r :=
      Fin.ext (by have := hq.resolve_left (by omega); omega)
    simp only [run_ite] at h₃
    split at h₃
    · obtain rfl := hslot (openMissing_result h₃) rfl
      rw [openMissing,bind_of_ok rfl] at h₃
      simp only [run_ite] at h₃
      split at h₃
      · exact absurd (refuse_result h₃) hne
      split at h₃
      · exact absurd (refuse_result h₃) hne
      obtain ⟨now,x,hx,h₄⟩ := bind_ok h₃
      obtain ⟨_,y,hy,h₅⟩ := bind_ok h₄
      obtain ⟨-,rfl⟩ := pure_ok h₅
      rw [(updateFile_result hy).file] at hsize
      exact absurd rfl hsize
    split at h₃
    · exact absurd (refuse_result h₃) hne
    split at h₃
    · obtain rfl := hslot (openExisting_result h₃) rfl
      have hx := openExisting_kept h₃ hne (.inr hsize)
      rw [hafter.blocks,hafter.file] at hx
      rw [‹i = 0›] at hv
      exact ⟨e₁,v,hv,hafter.trans hx⟩
    · exact absurd (refuse_result h₃) hne

/-! ### Reading and seeking inside the chain -/

/-- A readable descriptor of a regular file of `n` bytes with the chain `cs`, which stands at byte `p`,
has its sector in the buffer and nothing to write back. -/
structure Browses (g : FatInfo) (B : ℕ → Sector) (cs : List ℕ) (n p : ℕ) (f : FileS) : Prop where
  open_ : f.flags.open_ = true
  read : f.flags.read = true
  clean : f.flags.dirty = false
  regular : f.isSubdir = false
  size : f.size = n
  chain : g.Chain B f.fullFirstCluster cs
  place : f.Over g B cs p
  le : p ≤ n

theorem Browses.landed {g : FatInfo} {B : ℕ → Sector} {cs : List ℕ} {n p q : ℕ} {f f' : FileS}
    (h : Browses g B cs n p f) (hl : Landed g cs q B f f') (hq : q ≤ n) : Browses g B cs n q f' := by
  have hfield {α : Type} (u : FileS → α) (hu : ∀ f, u f.still = u f) := FileS.field_of_still u hu hl.still
  constructor
  · exact (hfield (fun f => f.flags.open_) fun _ => rfl).trans h.open_
  · exact (hfield (fun f => f.flags.read) fun _ => rfl).trans h.read
  · exact hl.clean
  · exact (hfield FileS.isSubdir fun _ => rfl).trans h.regular
  · exact (hfield FileS.size fun _ => rfl).trans h.size
  · rw [hfield FileS.fullFirstCluster fun _ => rfl]
    exact h.chain
  · exact hl.place
  · exact hq

/-- One byte further in the sector under the descriptor. -/
theorem Browses.step {g : FatInfo} {B : ℕ → Sector} {cs : List ℕ} {n p : ℕ} {f : FileS}
    (h : Browses g B cs n p f) (hlt : p < n) (hcursor : f.cursor < 512) :
    Browses g B cs n (p+1) { f with cursor := f.cursor + 1 } := by
  obtain ⟨⟨hinside,hcluster,hsector,hleft⟩,-,hposition,hloaded⟩ := h.place
  refine ⟨h.open_,h.read,h.clean,h.regular,h.size,h.chain,⟨⟨hinside,hcluster,hsector,hleft⟩,hcursor,?_,
    hloaded⟩,hlt⟩
  change f.fileSector * 512 + (f.cursor + 1) = p + 1
  omega

section NoFault
variable {E : Env} (hE : E.NoFault) {fd : Fd} {s : FatState} {p n : ℕ} {cs : List ℕ}
  (hg : s.fatfs.Valid s.dev.size) (hn : n < 2^31) (hroom : n < s.fatfs.span cs * 512)
  (h : Browses s.fatfs s.dev.blocks cs n p (s.fileNum fd))
include hE hg hn hroom h

theorem readLoop_browses (count : ℕ) : (readLoop E fd count).Returns s fun bytes t => ∃ q,
    After fd s t s.dev.blocks (t.fileNum fd) ∧ Browses s.fatfs s.dev.blocks cs n q (t.fileNum fd) ∧
      (p = n → bytes = [] ∧ t = s) := by
  induction count generalizing s p with
  | zero => exact returns_pure ⟨p,After.refl s,h,fun _ => ⟨rfl,rfl⟩⟩
  | succ count ih =>
    have hle := h.le
    have hpos := h.place.position_eq (show p < 2^32 by omega)
    refine returns_file ?_
    rw [hpos,h.size]
    refine returns_ite (fun _ => returns_pure ⟨p,After.refl s,h,fun _ => ⟨rfl,rfl⟩⟩) fun hend => ?_
    have hlt : p < n := by
      rw [not_and,Nat.not_le] at hend
      exact hend h.regular
    refine (nextSector_inside hE hg h.chain h.clean h.place (by omega)).bind fun failed t ht => ?_
    obtain ⟨rfl,ht,hl⟩ := ht
    refine returns_ite (by simp) fun _ => returns_file ((updateFile_returns fd _ t).bind fun _ u hu => ?_)
    rw [ht.blocks] at hu
    have hsu := ht.trans hu
    have hnext := (h.landed hl hle).step hlt hl.cursor
    have hloop := @ih u (p+1) (by rw [hsu.fatfs,hsu.size]; exact hg) (by rw [hsu.fatfs]; exact hroom)
      (by rw [hsu.fatfs,hsu.blocks,hu.file]; exact hnext)
    refine hloop.bind fun bytes v hv => returns_pure ?_
    obtain ⟨q,hv,hq,-⟩ := hv
    rw [hsu.blocks] at hv hq
    rw [hsu.fatfs] at hq
    exact ⟨q,hsu.trans hv,hq,fun he => absurd he hlt.ne⟩

theorem fatRead_browses (count : ℕ) : (fatRead E fd.val count).Returns s fun r t => ∃ q,
    After fd s t s.dev.blocks (t.fileNum fd) ∧ Browses s.fatfs s.dev.blocks cs n q (t.fileNum fd) ∧
      (p = n → r = (0,0,[]) ∧ t = s) := by
  rw [fatRead,withFd,dif_pos fd.isLt]
  refine returns_file (returns_ite (by simp [h.open_,h.read]) fun _ => ?_)
  refine (readLoop_browses hE hg hn hroom h count).bind fun bytes t ht => ?_
  obtain ⟨q,ht,hq,hend⟩ := ht
  by_cases hbytes : 0 < bytes.length
  · rw [if_pos hbytes]
    refine (fatUpdateAtime_returns E fd t).bind fun _ u hu => returns_pure ?_
    obtain ⟨now,mark,hu⟩ := hu
    rw [ht.blocks] at hu
    refine ⟨q,(ht.trans hu).self,?_,fun he => ?_⟩
    · rw [hu.file]
      exact ⟨hq.open_,hq.read,hq.clean,hq.regular,hq.size,hq.chain,⟨⟨hq.place.at_.inside,
        hq.place.at_.cluster,hq.place.at_.sector,hq.place.at_.left⟩,hq.place.cursor,hq.place.position,
        hq.place.loaded⟩,hq.le⟩
    · rw [(hend he).1] at hbytes
      exact absurd hbytes (by decide)
  · rw [if_neg hbytes,Prog.pure_bind]
    refine returns_pure ⟨q,ht,hq,fun he => ⟨?_,(hend he).2⟩⟩
    rw [(hend he).1]
    rfl

/-- A seek moves to its target or is refused. -/
theorem fatLseek_browses (ptr : ℤ) (dir : Whence) : (fatLseek E fd.val ptr dir).Returns s fun r t =>
    After fd s t s.dev.blocks (t.fileNum fd) ∧
    if (s.fileNum fd).target ptr dir ≤ n then r = (((s.fileNum fd).target ptr dir : ℤ),0) ∧
      Browses s.fatfs s.dev.blocks cs n ((s.fileNum fd).target ptr dir) (t.fileNum fd)
    else t = s := by
  have hle := h.le
  rw [fatLseek,withFd,dif_pos fd.isLt]
  split
  · rename_i htarget
    refine (seekSlot_inside hE hg h.chain h.clean h.open_ rfl h.place (by omega) (by omega) rfl
      (.inl (h.size ▸ htarget)) (by omega)).mono fun r t ht => ?_
    obtain ⟨hr,ht,hl⟩ := ht
    rw [i32_of_lt (by omega)] at hr
    exact ⟨ht,hr,h.landed hl htarget⟩
  · rename_i htarget
    refine returns_file (returns_ite (by simp [h.open_]) fun _ => ?_)
    refine returns_bind_of_ok (fatFlushWith_clean h.clean) (returns_file (returns_fatfs ?_))
    refine returns_ite (fun _ => returns_pure ⟨After.refl s,rfl⟩) fun hin => absurd ?_ hin
    rw [h.size]
    exact ⟨Nat.lt_of_not_le htarget,h.regular⟩

end NoFault

/-! ### Runs of reads and seeks -/

/-- A read or a seek on the descriptor. -/
def Call.Browses (fd : Fd) : Call → Prop
  | .read fd' _ | .lseek fd' _ _ => fd' = fd.val
  | _ => False

instance (fd : Fd) : DecidablePred (Call.Browses fd) := fun c => by
  unfold Call.Browses
  split <;> infer_instance

/-- Between two states the descriptor has read and moved about in its file. -/
structure Browsed (fd : Fd) (cs : List ℕ) (n : ℕ) (s t : FatState) : Prop where
  after : After fd s t s.dev.blocks (t.fileNum fd)
  browses : ∃ p, Browses s.fatfs s.dev.blocks cs n p (t.fileNum fd)

theorem Browsed.trans {fd : Fd} {cs : List ℕ} {n : ℕ} {s t u : FatState} (h : Browsed fd cs n s t)
    (h' : Browsed fd cs n t u) : Browsed fd cs n s u := by
  have hblocks := h.after.blocks
  have hfatfs := h.after.fatfs
  obtain ⟨ha,hb⟩ := h'
  rw [hblocks] at ha hb
  rw [hfatfs] at hb
  exact ⟨h.after.trans ha,hb⟩

theorem browse_step {E : Env} (hE : E.NoFault) {fd : Fd} {s t : FatState} {p n : ℕ} {cs : List ℕ} {c : Call}
    (hg : s.fatfs.Valid s.dev.size) (hn : n < 2^31) (hroom : n < s.fatfs.span cs * 512)
    (hs : Browses s.fatfs s.dev.blocks cs n p (s.fileNum fd)) (hc : c.Browses fd) (h : Step E s c t) :
    Browsed fd cs n s t := by
  obtain ⟨r,h⟩ := h
  cases c with
  | read fd' count =>
    obtain rfl : fd' = fd.val := hc
    obtain ⟨q,u,hread,h⟩ := bind_ok h
    obtain ⟨-,rfl⟩ := pure_ok h
    obtain ⟨q,ha,hq,-⟩ := (fatRead_browses hE hg hn hroom hs count).of_ok hread
    exact ⟨ha,q,hq⟩
  | lseek fd' ptr dir =>
    obtain rfl : fd' = fd.val := hc
    obtain ⟨q,u,hseek,h⟩ := bind_ok h
    obtain ⟨-,rfl⟩ := pure_ok h
    obtain ⟨ha,hq⟩ := (fatLseek_browses hE hg hn hroom hs ptr dir).of_ok hseek
    split at hq
    · exact ⟨ha,_,hq.2⟩
    · obtain rfl := hq
      exact ⟨ha,p,hs⟩
  | _ => exact hc.elim

/-- Reads and seeks leave the volume alone and the descriptor inside its file. -/
theorem browse_run {E : Env} (hE : E.NoFault) {fd : Fd} {s t : FatState} {p n : ℕ} {cs : List ℕ}
    {calls : List Call} (hrun : Runs E s calls t) (hcalls : ∀ c ∈ calls, c.Browses fd)
    (hg : s.fatfs.Valid s.dev.size) (hn : n < 2^31) (hroom : n < s.fatfs.span cs * 512)
    (hs : Browses s.fatfs s.dev.blocks cs n p (s.fileNum fd)) : Browsed fd cs n s t := by
  induction hrun generalizing p with
  | nil s => exact ⟨After.refl s,p,hs⟩
  | cons head tail ih =>
    have hstep := browse_step hE hg hn hroom hs (hcalls _ (by simp)) head
    obtain ⟨q,hq⟩ := hstep.browses
    have hrest := ih (fun c hc => hcalls c (by simp [hc]))
      (by rw [hstep.after.fatfs,hstep.after.size]; exact hg) (by rw [hstep.after.fatfs]; exact hroom)
      (by rw [hstep.after.fatfs,hstep.after.blocks]; exact hq)
    exact hstep.trans hrest

/-- A file with bytes that was opened for reading, or for reading and writing, is read from byte 0. -/
theorem fatOpen_browses {E : Env} (hE : E.NoFault) {name : List UInt8} {flags : OpenFlags} {mode : ℕ}
    {e e' : ℤ} {s t : FatState} {fd : Fd} {cs : List ℕ} (hflags : flags.wronly = false)
    (hopen : fatOpen E name flags mode e s = .ok ((fd.val,e'),t)) (hg : t.fatfs.Valid t.dev.size)
    (hregular : (t.fileNum fd).isSubdir = false) (hsize : (t.fileNum fd).size ≠ 0)
    (hcs : t.fatfs.Chain t.dev.blocks (t.fileNum fd).fullFirstCluster cs) :
    Browses t.fatfs t.dev.blocks cs (t.fileNum fd).size 0 (t.fileNum fd) := by
  obtain ⟨e₁,u,hlookup,ha⟩ := fatOpen_kept hopen hsize
  have htaken : ((s.taken fd).fileNum fd).flags = .justOpen := by rw [FatState.taken,FatState.setFile_self]
  have hlent := fatLookupPath_lent E fd name e _ _ _ hlookup htaken
  have hstart := (fatLookupPath_started hlookup (by rw [htaken]; rfl)).reopen
    ((u.fileNum fd).flags.access flags) rfl
  rw [← ha.file,← ha.fatfs] at hstart
  have hbits : (t.fileNum fd).flags = Flags.access flags .justOpen := by rw [ha.file,hlent]
  obtain ⟨-,hselect,hloaded⟩ := hstart.place.resolve_left fun h => hsize h.1
  have hpos := hcs.links.length_pos
  have hhead : cs[0] = (t.fileNum fd).fullFirstCluster := by
    have := hcs.links.getElem_zero
    rw [List.getElem?_eq_getElem hpos] at this
    exact Option.some.inj this
  have hat := (hg.select_at hcs.inRange hpos (t.fileNum fd)).1
  rw [hhead,hselect,Nat.zero_mul] at hat
  have hlt := hat.sector_lt hg hcs.inRange
  rw [ha.size] at hlt
  refine ⟨?_,?_,?_,hregular,rfl,hcs,⟨?_,?_,?_,?_⟩,Nat.zero_le _⟩
  · rw [hbits]
    rfl
  · rw [hbits]
    simp [Flags.access,hflags]
  · rw [hbits]
    rfl
  · rw [hstart.fileSector]
    exact hat
  · rw [hstart.cursor]
    exact Nat.zero_le _
  · rw [hstart.fileSector,hstart.cursor]
  · rw [ha.blocks]
    exact hloaded hE hlt

/-- The descriptor stands behind the last byte of its file: a read delivers nothing, and asking for the
position changes nothing. -/
structure AtEnd (E : Env) (fd : Fd) (v : FatState) : Prop where
  position : (v.fileNum fd).fileSector * 512 + (v.fileNum fd).cursor = (v.fileNum fd).size
  read : ∀ count, fatRead E fd.val count v = .ok ((0,0,[]),v)
  tell : (fatLseek E fd.val 0 .cur).Returns v fun r _ => r = (((v.fileNum fd).size : ℤ),0)

/-- A seek to the end of a file whose last byte is not the last one of its chain, from wherever reads and
seeks have brought the descriptor: it succeeds, and no block of the volume has changed since the open. -/
theorem seek_end_of_file {E : Env} (hE : E.NoFault) {name : List UInt8} {flags : OpenFlags} {mode : ℕ}
    {e e' : ℤ} {s t u : FatState} {fd : Fd} {cs : List ℕ} {calls : List Call} {ptr : ℤ} {dir : Whence}
    (hflags : flags.wronly = false) (hopen : fatOpen E name flags mode e s = .ok ((fd.val,e'),t))
    (hg : t.fatfs.Valid t.dev.size) (hregular : (t.fileNum fd).isSubdir = false)
    (hsize : (t.fileNum fd).size ≠ 0) (hn : (t.fileNum fd).size < 2^31)
    (hcs : t.fatfs.Chain t.dev.blocks (t.fileNum fd).fullFirstCluster cs)
    (hroom : (t.fileNum fd).size < t.fatfs.span cs * 512)
    (hrun : Runs E t calls u) (hcalls : ∀ c ∈ calls, c.Browses fd)
    (htarget : (u.fileNum fd).target ptr dir = (t.fileNum fd).size) :
    (fatLseek E fd.val ptr dir).Returns u fun r v => r = (((t.fileNum fd).size : ℤ),0) ∧
      v.dev.blocks = t.dev.blocks ∧ (v.fileNum fd).size = (t.fileNum fd).size ∧ AtEnd E fd v := by
  have hstart := fatOpen_browses hE hflags hopen hg hregular hsize hcs
  obtain ⟨htu,p,hu⟩ := browse_run hE hrun hcalls hg hn hroom hstart
  have hgu : u.fatfs.Valid u.dev.size := by rw [htu.fatfs,htu.size]; exact hg
  rw [← htu.fatfs,← htu.blocks] at hu
  rw [← htu.fatfs] at hroom
  refine (fatLseek_browses hE hgu hn hroom hu ptr dir).mono fun r v hv => ?_
  obtain ⟨huv,hv⟩ := hv
  rw [htarget,if_pos le_rfl] at hv
  obtain ⟨hr,hb⟩ := hv
  have hgv : v.fatfs.Valid v.dev.size := by rw [huv.fatfs,huv.size]; exact hgu
  rw [← huv.fatfs,← huv.blocks] at hb
  rw [← huv.fatfs] at hroom
  have hposition := hb.place.position
  have hend := hb.size
  refine ⟨hr,huv.blocks.trans htu.blocks,hb.size,⟨by rw [hposition,hend],fun count => ?_,?_⟩⟩
  · obtain ⟨a,w,hw,q,-,-,he⟩ := fatRead_browses hE hgv hn hroom hb count
    obtain ⟨rfl,rfl⟩ := he rfl
    exact hw
  · have hcur : (v.fileNum fd).target 0 .cur = (t.fileNum fd).size := by
      change u32OfInt (((v.fileNum fd).fileSector : ℤ) * 512 + (v.fileNum fd).cursor + 0) = _
      rw [add_zero,← hposition]
      exact_mod_cast u32OfInt_natCast (x := (v.fileNum fd).fileSector * 512 + (v.fileNum fd).cursor)
        (by omega)
    refine (fatLseek_browses hE hgv hn hroom hb 0 .cur).mono fun r w hw => ?_
    rw [hcur,if_pos le_rfl] at hw
    rw [hend]
    exact hw.2.1

/-- Three bytes, two back, and then to the end of the small file, open for reading and writing. -/
theorem seek_end_of_small_file :
    let E := Env.calm (fun _ => 90) 8
    ∃ t u : FatState, fatOpen E oneFilePath oRdwr 0 0 (.mounted smallFat16 300 oneFile) = .ok ((0,0),t) ∧
      Runs E t [.read 0 3,.lseek 0 (-2) .cur] u ∧
      (fatLseek E 0 0 .end_).Returns u fun r v => r = (5,0) ∧
        v.dev.blocks = t.dev.blocks ∧ (v.fileNum 0).size = 5 ∧ AtEnd E 0 v := by
  intro E
  have hrun : Prog.test (do
      let p ← fatOpen E oneFilePath oRdwr 0 0
      let s₁ ← get
      let _ ← Call.exec E (.read 0 3)
      let _ ← Call.exec E (.lseek 0 (-2) .cur)
      let s₂ ← get
      pure (decide (p = (0,0) ∧ s₁.fatfs = smallFat16 ∧ s₁.dev.size = 300 ∧
          (s₁.fileNum 0).isSubdir = false ∧ (s₁.fileNum 0).size = 5 ∧
          (s₁.fileNum 0).fullFirstCluster = 2 ∧ 0xFFF0 ≤ smallFat16.entry s₁.dev.blocks 2),
        decide ((s₂.fileNum 0).target 0 .end_ = 5))) (.mounted smallFat16 300 oneFile)
      (fun a _ => a.1 && a.2) = true := by
    decide +kernel
  obtain ⟨a,u,hx,hp⟩ := ok_of_test hrun
  obtain ⟨p,t,hopen,h₁⟩ := bind_ok hx
  rw [bind_of_ok rfl] at h₁
  obtain ⟨r₁,v,hread,h₂⟩ := bind_ok h₁
  obtain ⟨r₂,w,hseek,h₃⟩ := bind_ok h₂
  rw [bind_of_ok rfl] at h₃
  obtain ⟨rfl,rfl⟩ := pure_ok h₃
  simp only [Bool.and_eq_true,decide_eq_true_eq] at hp
  obtain ⟨⟨rfl,hg,hsize,hreg,hfile,hfirst,hmark⟩,htarget⟩ := hp
  have hruns : Runs E t [.read 0 3,.lseek 0 (-2) .cur] u := .cons ⟨r₁,hread⟩ (.cons ⟨r₂,hseek⟩ (.nil u))
  have hend := @seek_end_of_file E ⟨fun _ => rfl,fun _ => rfl,fun _ => rfl⟩ oneFilePath oRdwr 0 0 0 _ t u 0
    [2] _ 0 .end_ rfl hopen (by rw [hg,hsize]; exact smallFat16_valid) hreg (by rw [hfile]; decide)
    (by rw [hfile]; decide) ?_ (by rw [hg,hfile]; decide) hruns (by decide) (by rw [hfile]; exact htarget)
  · rw [hfile] at hend
    exact ⟨t,u,hopen,hruns,hend⟩
  · rw [hg,hfirst]
    exact ⟨.last (by rw [FatInfo.next]; exact if_pos hmark),by decide⟩

/-- The small volume with the file `/AB.TXT` of 512 bytes in cluster 2. -/
def fullCluster : ℕ → Sector
  | 1 => Sector.ofBytes [0xF8,0xFF,0xFF,0xFF,0xFF,0xFF]
  | 2 => Sector.ofBytes [0x41,0x42,0x20,0x20,0x20,0x20,0x20,0x20,0x54,0x58,0x54,0x20,
      0,0,0,0,0,0,0,0,0,0,0,0,0,0,2,0,0,2,0,0]
  | _ => Sector.zero

/-- A file that fills its cluster, read to its end: a seek to the end returns 512 and goes back to byte 0. -/
theorem seek_end_goes_back :
    let E := Env.calm (fun _ => 90) 8
    ∃ t u : FatState, fatOpen E oneFilePath oRdonly 0 0 (.mounted smallFat16 300 fullCluster) =
        .ok ((0,0),t) ∧ t.fatfs.Valid t.dev.size ∧ (t.fileNum 0).isSubdir = false ∧
      (t.fileNum 0).size = 512 ∧ t.fatfs.Chain t.dev.blocks (t.fileNum 0).fullFirstCluster [2] ∧
      Runs E t [.read 0 512] u ∧ (u.fileNum 0).target 0 .end_ = 512 ∧
      (fatLseek E 0 0 .end_).Returns u fun r v => r = (512,0) ∧ ¬ AtEnd E 0 v ∧
        (v.fileNum 0).fileSector * 512 + (v.fileNum 0).cursor = 0 := by
  intro E
  have hrun : Prog.test (do
      let p ← fatOpen E oneFilePath oRdonly 0 0
      let s₁ ← get
      let _ ← Call.exec E (.read 0 512)
      let s₂ ← get
      let r ← fatLseek E 0 0 .end_
      let s₃ ← get
      pure (decide (p = (0,0) ∧ s₁.fatfs = smallFat16 ∧ s₁.dev.size = 300 ∧
          (s₁.fileNum 0).isSubdir = false ∧ (s₁.fileNum 0).size = 512 ∧
          (s₁.fileNum 0).fullFirstCluster = 2 ∧ 0xFFF0 ≤ smallFat16.entry s₁.dev.blocks 2),
        decide ((s₂.fileNum 0).target 0 .end_ = 512 ∧ r = (512,0) ∧ (s₃.fileNum 0).size = 512 ∧
          (s₃.fileNum 0).fileSector * 512 + (s₃.fileNum 0).cursor = 0)))
      (.mounted smallFat16 300 fullCluster) (fun a _ => a.1 && a.2) = true := by
    decide +kernel
  obtain ⟨a,u,hx,hp⟩ := ok_of_test hrun
  obtain ⟨p,t,hopen,h₁⟩ := bind_ok hx
  rw [bind_of_ok rfl] at h₁
  obtain ⟨r₁,v,hread,h₂⟩ := bind_ok h₁
  rw [bind_of_ok rfl] at h₂
  obtain ⟨r₂,w,hseek,h₃⟩ := bind_ok h₂
  rw [bind_of_ok rfl] at h₃
  obtain ⟨rfl,rfl⟩ := pure_ok h₃
  simp only [Bool.and_eq_true,decide_eq_true_eq] at hp
  obtain ⟨⟨rfl,hg,hsize,hreg,hfile,hfirst,hmark⟩,htarget,rfl,hend,hposition⟩ := hp
  refine ⟨t,v,hopen,by rw [hg,hsize]; exact smallFat16_valid,hreg,hfile,?_,.cons ⟨r₁,hread⟩ (.nil v),htarget,
    ⟨_,u,hseek,rfl,fun h => ?_,hposition⟩⟩
  · rw [hg,hfirst]
    exact ⟨.last (by rw [FatInfo.next]; exact if_pos hmark),by decide⟩
  · have := h.position
    omega

end Gristle
