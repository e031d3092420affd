import Gristle.Seek
import Gristle.Directory

/-! A descriptor whose buffer may be ahead of the medium. What counts is the medium as it will be once
the buffer is written back: moving along a file does not change it, and a byte put into the buffer
changes that byte of the file and nothing else. -/
namespace Gristle
open Prog

/-! ### Bytes of a list of blocks -/

/-- Byte `i` of these blocks. -/
def byteAt (V : ℕ → Sector) (secs : List ℕ) (i : ℕ) : UInt8 := (V (secs.getD (i / 512) 0)).get (i % 512)

/-- The medium with one byte of one block replaced. -/
def poke (V : ℕ → Sector) (b i : ℕ) (c : UInt8) : ℕ → Sector := Function.update V b ((V b).set i c)

/-- The medium with these bytes in the blocks, from byte `p` on. -/
def overlay (V : ℕ → Sector) (secs : List ℕ) : ℕ → List UInt8 → ℕ → Sector
  | _, [] => V
  | p, c :: bytes => overlay (poke V (secs.getD (p / 512) 0) (p % 512) c) secs (p+1) bytes

theorem poke_of_ne (V : ℕ → Sector) {b b' : ℕ} (i : ℕ) (c : UInt8) (h : b' ≠ b) :
    poke V b i c b' = V b' := Function.update_of_ne h _ _

theorem get_poke (V : ℕ → Sector) (b b' i j : ℕ) (c : UInt8) (hj : j < 512) :
    (poke V b i c b').get j = if b' = b ∧ j = i then c else (V b').get j := by
  unfold poke
  by_cases hb : b' = b
  · subst hb
    rw [Function.update_self,Sector.get_set]
    by_cases hji : j = i
    · subst hji
      simp [show j < blockSize from hj]
    · simp [hji]
  · rw [Function.update_of_ne hb,if_neg (fun h => hb h.1)]

theorem byteAt_poke {V : ℕ → Sector} {secs : List ℕ} (hnd : secs.Nodup) {p i : ℕ}
    (hp : p < secs.length * 512) (hi : i < secs.length * 512) (c : UInt8) :
    byteAt (poke V (secs.getD (p / 512) 0) (p % 512) c) secs i = if i = p then c else byteAt V secs i := by
  have hmod : i % 512 < 512 := Nat.mod_lt _ (by decide)
  have hq : p / 512 < secs.length := by omega
  have hq' : i / 512 < secs.length := by omega
  have hinj : secs.getD (i / 512) 0 = secs.getD (p / 512) 0 → i / 512 = p / 512 := by
    rw [List.getD_eq_getElem _ _ hq,List.getD_eq_getElem _ _ hq']
    exact hnd.getElem_inj_iff.1
  rw [byteAt,get_poke _ _ _ _ _ _ hmod]
  by_cases h : i = p
  · subst h
    rw [if_pos ⟨rfl,rfl⟩,if_pos rfl]
  · rw [if_neg (fun heq => h (by have := hinj heq.1; omega)),if_neg h]
    rfl

theorem overlay_of_not_mem {V : ℕ → Sector} {secs : List ℕ} {p b : ℕ} {bytes : List UInt8}
    (hroom : p + bytes.length ≤ secs.length * 512) (hb : b ∉ secs) : overlay V secs p bytes b = V b := by
  induction bytes generalizing V p with
  | nil => rfl
  | cons c bytes ih =>
    rw [List.length_cons] at hroom
    have hq : p / 512 < secs.length := by omega
    rw [overlay,ih (by omega),poke_of_ne]
    rintro rfl
    rw [List.getD_eq_getElem _ _ hq] at hb
    exact hb (List.getElem_mem hq)

/-! ### Blocks behind the table -/

namespace FatInfo
variable {g : FatInfo} {size : ℕ} {B B' : ℕ → Sector} {c : ℕ} {secs : List ℕ}

/-- The media agree on the table. -/
def SameFat (g : FatInfo) (B B' : ℕ → Sector) : Prop := ∀ c < g.entries, g.entry B' c = g.entry B c

theorem SameFat.symm (h : g.SameFat B B') : g.SameFat B' B := fun c hc => (h c hc).symm

theorem SameFat.trans {B'' : ℕ → Sector} (h : g.SameFat B B') (h' : g.SameFat B' B'') : g.SameFat B B'' :=
  fun c hc => (h' c hc).trans (h c hc)

theorem SameFat.chain (h : g.SameFat B B') {cs : List ℕ} (hcs : g.Chain B c cs) : g.Chain B' c cs :=
  hcs.congr fun d hd => h d (hcs.inRange d hd).2

theorem SameFat.scanned (h : g.SameFat B B') (hs : g.Scanned B c secs) : g.Scanned B' c secs := by
  cases hs with
  | fixed h16 => exact .fixed h16
  | chain hcs => exact .chain (h.chain hcs)

theorem SameFat.stands (h : g.SameFat B B') {q : ℕ} {f : FileS} (hf : f.Stands g B c q) :
    f.Stands g B' c q := hf.imp_right fun ⟨cs,hcs,hat⟩ => ⟨cs,h.chain hcs,hat⟩

theorem SameFat.reserved (h : g.SameFat B B') (hg : g.Valid size) (hr : g.Reserved B) : g.Reserved B' := by
  have hge := hg.entries_ge
  refine ⟨?_,?_⟩
  · rw [h 0 (by omega)]
    exact hr.zero
  · rw [h 1 (by omega)]
    exact hr.one

theorem Valid.sameFat_update (hg : g.Valid size) (B : ℕ → Sector) {b : ℕ} (data : Sector)
    (hb : g.activeFatStart + g.sectorsPerFat ≤ b) : g.SameFat B (Function.update B b data) :=
  fun _ hc => hg.table.entry_congr hc fun b' _ h' => Function.update_of_ne (by omega) _ _

theorem Scanned.nodup (h : g.Scanned B c secs) (hg : g.Valid size) : secs.Nodup := by
  cases h with
  | fixed => exact List.Nodup.map (fun a b h => Nat.add_left_cancel h) List.nodup_range
  | chain h =>
    refine List.Nodup.map_on (fun p hp q hq heq => ?_) List.nodup_range
    exact hg.sectorAt_inj h.inRange h.links.nodup (List.mem_range.1 hp) (List.mem_range.1 hq) heq

end FatInfo

/-! ### The descriptor -/

theorem FileS.Stands.of_eq {g : FatInfo} {B : ℕ → Sector} {c q : ℕ} {f f' : FileS} (h : f.Stands g B c q)
    (hs : f'.sector = f.sector) (hc : f'.cluster = f.cluster) (hl : f'.sectorsLeft = f.sectorsLeft) :
    f'.Stands g B c q := by
  refine h.imp (fun h => ?_) fun ⟨cs,hcs,h⟩ => ⟨cs,hcs,h.inside,?_,?_,?_⟩
  · rw [hs,hc,hl]
    exact h
  · rw [hc,h.cluster]
  · rw [hs,h.sector]
  · rw [hl,h.left]

/-- The descriptor stands at byte `p` of the directory or file at cluster `c`; `V` is the medium as it
will be once its buffer is written back. -/
structure Sits (fd : Fd) (c p : ℕ) (V : ℕ → Sector) (s : FatState) : Prop where
  view : (s.fileNum fd).flushed s.dev.blocks = V
  stands : (s.fileNum fd).Stands s.fatfs V c (s.fileNum fd).fileSector
  cursor : (s.fileNum fd).cursor ≤ 512
  position : (s.fileNum fd).fileSector * 512 + (s.fileNum fd).cursor = p
  current : (s.fileNum fd).flags.dirty = true ∨ (s.fileNum fd).Loaded s.dev.blocks

/-- `fat_write` of one byte into the buffer. -/
def FileS.put (f : FileS) (c : UInt8) : FileS :=
  { f with buffer := f.buffer.set f.cursor c, cursor := f.cursor + 1, flags.dirty := true }

/-- The size grows when a byte is written behind the last one of a regular file. -/
def FileS.swell (f : FileS) : FileS :=
  if f.isSubdir = false ∧ f.position = f.size then { f with size := u32 (f.size + 1), flags.fsDirty := true } else f

section Sits
variable {fd : Fd} {s : FatState} {c p : ℕ} {V : ℕ → Sector} {secs : List ℕ}

theorem Sits.buffer (h : Sits fd c p V s) : (s.fileNum fd).buffer = V (s.fileNum fd).sector := by
  obtain hview := h.view
  rcases h.current with hd | hl
  · rw [← hview,FileS.flushed,if_pos hd,Function.update_self]
  · cases hd : (s.fileNum fd).flags.dirty with
    | true => rw [← hview,FileS.flushed,if_pos hd,Function.update_self]
    | false =>
      rw [← hview,FileS.flushed_of_clean hd]
      exact hl

/-- The medium differs in the sector under the descriptor only. -/
theorem Sits.blocks_of_ne (h : Sits fd c p V s) {b : ℕ} (hb : b ≠ (s.fileNum fd).sector) :
    s.dev.blocks b = V b := by
  rw [← h.view,FileS.flushed]
  split
  · rw [Function.update_of_ne hb]
  · rfl

section Scanned
variable (hg : s.fatfs.Valid s.dev.size) (hscan : s.fatfs.Scanned V c secs)
include hg hscan

theorem Sits.sector (h : Sits fd c p V s) : (s.fileNum fd).fileSector < secs.length ∧
    secs.getD (s.fileNum fd).fileSector 0 = (s.fileNum fd).sector := hscan.stands hg h.stands

theorem Sits.mem (h : Sits fd c p V s) : (s.fileNum fd).sector ∈ secs := by
  obtain ⟨hlt,hsector⟩ := h.sector hg hscan
  rw [← hsector,List.getD_eq_getElem _ _ hlt]
  exact List.getElem_mem hlt

theorem Sits.sector_lt (h : Sits fd c p V s) : (s.fileNum fd).sector < s.dev.size :=
  (hscan.mem hg (h.mem hg hscan)).1

theorem Sits.behind (h : Sits fd c p V s) :
    s.fatfs.activeFatStart + s.fatfs.sectorsPerFat ≤ (s.fileNum fd).sector :=
  (hscan.mem hg (h.mem hg hscan)).2

theorem Sits.sector_ne (h : Sits fd c p V s) : (s.fileNum fd).sector ≠ 0 := by
  have := h.behind hg hscan
  have := hg.fatPos
  omega

theorem Sits.le (h : Sits fd c p V s) : p ≤ secs.length * 512 := by
  have := (h.sector hg hscan).1
  have := h.position
  have := h.cursor
  omega

/-- A position inside the sector in the buffer. -/
theorem Sits.place (h : Sits fd c p V s) (hcursor : (s.fileNum fd).cursor < 512) :
    secs.getD (p / 512) 0 = (s.fileNum fd).sector ∧ p % 512 = (s.fileNum fd).cursor := by
  have hposition := h.position
  have hq : p / 512 = (s.fileNum fd).fileSector := by omega
  rw [hq]
  exact ⟨(h.sector hg hscan).2,by omega⟩

/-- One more byte. -/
theorem Sits.put (h : Sits fd c p V s) (hcursor : (s.fileNum fd).cursor < 512) (b : UInt8) {t : FatState}
    (ht : After fd s t s.dev.blocks ((s.fileNum fd).swell.put b)) :
    Sits fd c (p+1) (poke V (secs.getD (p / 512) 0) (p % 512) b) t := by
  have hswell : (s.fileNum fd).swell.sector = (s.fileNum fd).sector ∧
      (s.fileNum fd).swell.cluster = (s.fileNum fd).cluster ∧
      (s.fileNum fd).swell.sectorsLeft = (s.fileNum fd).sectorsLeft ∧
      (s.fileNum fd).swell.fileSector = (s.fileNum fd).fileSector ∧
      (s.fileNum fd).swell.cursor = (s.fileNum fd).cursor ∧
      (s.fileNum fd).swell.buffer = (s.fileNum fd).buffer := by
    unfold FileS.swell
    split <;> exact ⟨rfl,rfl,rfl,rfl,rfl,rfl⟩
  obtain ⟨hsec,hcl,hleft,hfs,hcur,hbuf⟩ := hswell
  obtain ⟨hplace,hmod⟩ := h.place hg hscan hcursor
  have hview : ((s.fileNum fd).swell.put b).flushed s.dev.blocks =
      poke V (s.fileNum fd).sector (s.fileNum fd).cursor b := by
    rw [FileS.flushed,if_pos (show ((s.fileNum fd).swell.put b).flags.dirty = true from rfl)]
    change Function.update s.dev.blocks (s.fileNum fd).swell.sector
      ((s.fileNum fd).swell.buffer.set (s.fileNum fd).swell.cursor b) = _
    rw [hsec,hcur,hbuf,h.buffer]
    funext b'
    unfold poke
    by_cases hb : b' = (s.fileNum fd).sector
    · subst hb
      rw [Function.update_self,Function.update_self]
    · rw [Function.update_of_ne hb,Function.update_of_ne hb,h.blocks_of_ne hb]
  have hposition := h.position
  have hsame := hg.sameFat_update V ((V (s.fileNum fd).sector).set (s.fileNum fd).cursor b) (h.behind hg hscan)
  rw [hplace,hmod]
  constructor
  · rw [ht.blocks,ht.file]
    exact hview
  · rw [ht.fatfs,ht.file]
    change FileS.Stands _ _ _ (s.fileNum fd).swell.fileSector _
    rw [hfs]
    exact hsame.stands (h.stands.of_eq hsec hcl hleft)
  · rw [ht.file]
    change (s.fileNum fd).swell.cursor + 1 ≤ 512
    rw [hcur]
    exact hcursor
  · rw [ht.file]
    change (s.fileNum fd).swell.fileSector * 512 + ((s.fileNum fd).swell.cursor + 1) = p + 1
    rw [hfs,hcur,← Nat.add_assoc,hposition]
  · rw [ht.file]
    exact .inl rfl

end Scanned

end Sits

/-! ### Moving on and writing -/

theorem fatNextSectorWith_of_flush {E : Env} {ffi : Fd → FatM ℤ} {fd : Fd} {s t : FatState}
    (h : fatFlushWith ffi E fd s = .ok (0,t)) (hclean : (t.fileNum fd).flags.dirty = false) :
    fatNextSectorWith ffi E fd s = fatNextSectorWith ffi E fd t := by
  rw [fatNextSectorWith,bind_of_ok h,bind_of_ok (fatFlushWith_clean hclean)]

section NoFault
variable {E : Env} (hE : E.NoFault) {fd : Fd} {s : FatState} {c p : ℕ} {V : ℕ → Sector} {secs : List ℕ}
  (hg : s.fatfs.Valid s.dev.size) (hscan : s.fatfs.Scanned V c secs) (h : Sits fd c p V s)
include hE hg hscan h

/-- Writing the buffer back. -/
theorem Sits.flush {ffi : Fd → FatM ℤ} : (fatFlushWith ffi E fd).Returns s fun r t => r = 0 ∧
    After fd s t V (s.fileNum fd).clean ∧ Sits fd c p V t := by
  refine (fatFlushWith_returns hE (h.sector_ne hg hscan) (h.sector_lt hg hscan)).mono fun r t ht => ?_
  obtain ⟨hr,ht⟩ := ht
  rw [h.view] at ht
  refine ⟨hr,ht,⟨?_,?_,?_,?_,.inr ?_⟩⟩
  · rw [ht.blocks,ht.file]
    exact FileS.flushed_of_clean rfl V
  · rw [ht.fatfs,ht.file]
    exact h.stands.of_eq rfl rfl rfl
  · rw [ht.file]
    exact h.cursor
  · rw [ht.file]
    exact h.position
  · rw [ht.file,ht.blocks]
    exact h.buffer

/-- A descriptor that has used up its sector turns to the next one. -/
theorem Sits.advance (hp : p < secs.length * 512) (hp₃₂ : p < 2^32) :
    (if (s.fileNum fd).cursor = blockSize then fatNextSector E fd else pure false).Returns s
      fun failed t => failed = false ∧ SameBut fd s t ∧ Sits fd c p V t ∧ (t.fileNum fd).cursor < 512 ∧
        (t.fileNum fd).still = (s.fileNum fd).still ∧
        (t.fileNum fd).flags.fsDirty = (s.fileNum fd).flags.fsDirty := by
  have hcursor := h.cursor
  have hposition := h.position
  refine returns_ite (fun hend => ?_) fun hin => returns_pure ⟨rfl,Std.Refl.refl s,h,?_,rfl,rfl⟩
  swap
  · exact Nat.lt_of_le_of_ne hcursor hin
  change (s.fileNum fd).cursor = 512 at hend
  obtain ⟨r,t,hrun,rfl,ht,hs⟩ := @Sits.flush E hE fd s c p V secs hg hscan h (fatFlushFileinfo E)
  have hclean : (t.fileNum fd).flags.dirty = false := by
    rw [ht.file]
    rfl
  have hnext := @fatNextSectorWith_scanned E hE (fatFlushFileinfo E) fd t c (t.fileNum fd).fileSector secs
    (by rw [ht.fatfs,ht.size]; exact hg) (by rw [ht.fatfs,ht.blocks]; exact hscan)
    (by rw [ht.blocks]; exact hs.stands) hclean (.inl ?_)
  · have hfs : (t.fileNum fd).fileSector = (s.fileNum fd).fileSector := by
      rw [ht.file]
      rfl
    rw [Returns,← fatNextSectorWith_of_flush hrun hclean] at hnext
    refine Returns.mono hnext fun failed u hu => ?_
    obtain ⟨hu,hstill,hflags,hmoved⟩ := hu
    rw [hfs,if_pos (by have := h.sector hg hscan; omega),u32_of_lt (by omega)] at hmoved
    obtain ⟨rfl,hst,hload,hzero,hsector⟩ := hmoved
    have hsu := ht.trans hu
    refine ⟨rfl,hsu.but,⟨?_,?_,?_,?_,.inr ?_⟩,?_,?_,?_⟩
    · rw [FileS.flushed_of_clean (by rw [hflags]; exact hclean),hsu.blocks,ht.blocks]
    · rw [hsu.fatfs,hsector]
      rw [ht.fatfs,ht.blocks] at hst
      exact hst
    · rw [hzero]
      exact Nat.zero_le _
    · rw [hsector,hzero,← hposition,hend,Nat.succ_mul,Nat.add_zero]
    · rw [hsu.blocks]
      exact hload
    · rw [hzero]
      decide
    · rw [hstill,ht.file]
      rfl
    · rw [hflags,ht.file]
      rfl
  · rw [ht.file]
    change (s.fileNum fd).fileSector + 1 < secs.length
    omega

end NoFault

end Gristle
