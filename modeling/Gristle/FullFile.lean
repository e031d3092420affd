import Gristle.SeekExact
import Gristle.Unlink
import Gristle.SeekEnd

/-! A regular file on a volume without a free cluster. Wherever calls of `fat_write` and `fat_lseek` bring
its descriptor, only sectors of its own chain and its own entry are written, as long as no call goes to the
byte behind the chain. -/
namespace Gristle
open Prog

/-! ### What may change -/

/-- Nothing differs but sectors of the chain `cs` and slot `en` of block `es`. -/
structure Spared (g : FatInfo) (cs : List ℕ) (es en : ℕ) (B B' : ℕ → Sector) : Prop where
  blocks : ∀ b, ¬ g.Owns cs b → b ≠ es → B' b = B b
  slot : ∀ j, j < 32*en ∨ 32*en + 32 ≤ j → (B' es).get j = (B es).get j

namespace Spared
variable {g : FatInfo} {size es en : ℕ} {cs : List ℕ} {B B' B'' : ℕ → Sector}

theorem refl (g : FatInfo) (cs : List ℕ) (es en : ℕ) (B : ℕ → Sector) : Spared g cs es en B B :=
  ⟨fun _ _ _ => rfl,fun _ _ => rfl⟩

theorem trans (h : Spared g cs es en B B') (h' : Spared g cs es en B' B'') : Spared g cs es en B B'' :=
  ⟨fun b hb he => (h'.blocks b hb he).trans (h.blocks b hb he),fun j hj => (h'.slot j hj).trans (h.slot j hj)⟩

/-- The table is as before. -/
theorem entry (h : Spared g cs es en B B') (hg : g.Valid size) (hes : g.activeFatStart + g.sectorsPerFat ≤ es) {c : ℕ}
    (hc : c < g.entries) : g.entry B' c = g.entry B c :=
  hg.table.entry_congr hc fun b hle hlt => h.blocks b (fun hown => by
    have := hg.owns_outside hown
    unfold FatInfo.Outside at this
    omega) (by omega)

/-- The buffer of a descriptor in the chain goes to a sector of the chain. -/
theorem flushed (hes : ¬ g.Owns cs es) {f : FileS} {q : ℕ} (hat : f.At g cs q) :
    Spared g cs es en B (f.flushed B) := by
  have hown : g.Owns cs f.sector := ⟨q,hat.inside,hat.sector⟩
  have hother (b : ℕ) (hb : ¬ g.Owns cs b) : f.flushed B b = B b :=
    flushed_of_ne B fun heq => hb (heq ▸ hown)
  exact ⟨fun b hb _ => hother b hb,fun j _ => by rw [hother es hes]⟩

/-- The entry of a descriptor goes to its slot. -/
theorem stored {E : Env} {f : FileS} (hs : f.entrySector = es) (hn : f.entryNumber = en) (reserved : UInt8) :
    Spared g cs es en B (f.storedOn E reserved B) where
  blocks b _ hb := Function.update_of_ne (hs ▸ hb) _ _
  slot j hj := by
    subst hs hn
    rw [FileS.storedOn,Function.update_self,get_setDirent_of_ne _ _ _ _ hj]

end Spared

/-! ### Where the descriptor stands -/

/-- The descriptor stands at byte `p` of the chain `cs`. Its position is this byte in 32 bits, it is not behind
the end of the file, and the chain has as many bytes left as the file. -/
structure FileS.Spot (g : FatInfo) (cs : List ℕ) (p : ℕ) (f : FileS) : Prop where
  place : ∃ q, f.At g cs q ∧ p = q*512 + f.cursor
  cursor : f.cursor ≤ 512
  position : f.position = p % 2^32
  offset : f.offset ≤ p
  inside : f.position ≤ f.size
  room : f.size + p ≤ g.span cs * 512 + f.position
  size_lt : f.size < 2^32

/-- The volume has no free cluster, and the descriptor is open for writing on the file with the chain `cs` and
the entry in slot `en` of block `es`. -/
structure FatState.Packed (fd : Fd) (cs : List ℕ) (es en p : ℕ) (s : FatState) : Prop where
  volume : s.fatfs.Valid s.dev.size
  full : s.fatfs.Full s.dev.blocks
  chain : s.fatfs.Chain s.dev.blocks (s.fileNum fd).fullFirstCluster cs
  apart : ¬ s.fatfs.Owns cs es
  open_ : (s.fileNum fd).flags.open_ = true
  write : (s.fileNum fd).flags.write = true
  regular : (s.fileNum fd).isSubdir = false
  entry : (s.fileNum fd).HasEntry s.fatfs s.dev.size
  entrySector : (s.fileNum fd).entrySector = es
  entryNumber : (s.fileNum fd).entryNumber = en
  spot : (s.fileNum fd).Spot s.fatfs cs p

/-- The part of a descriptor that writing to its file leaves alone. -/
def FileS.home (f : FileS) : FileS := { f.still with size := 0, modified := 0 }

theorem FileS.home_of_still {f f' : FileS} (h : f'.still = f.still) : f'.home = f.home :=
  congrArg (fun f : FileS => { f with size := 0, modified := 0 }) h

/-- What a step of a call on the file does. -/
structure Worked (fd : Fd) (cs : List ℕ) (es en p : ℕ) (s t : FatState) : Prop where
  but : SameBut fd s t
  spared : Spared s.fatfs cs es en s.dev.blocks t.dev.blocks
  packed : t.Packed fd cs es en p

section Spot
variable {g : FatInfo} {size p : ℕ} {cs : List ℕ} {f f' : FileS}

/-- What a descriptor in the same place needs to stand at the same byte. -/
theorem FileS.Spot.of_same (h : f.Spot g cs p) (hp : f.SamePlace f') (hsize : f'.size = f.size) : f'.Spot g cs p := by
  have hoffset : f'.offset = f.offset := by rw [FileS.offset,hp.fileSector,hp.cursor]; rfl
  have hposition : f'.position = f.position := by rw [FileS.position_eq,hoffset,FileS.position_eq]
  obtain ⟨q,hat,hq⟩ := h.place
  refine ⟨⟨q,hat.congr hp.cluster hp.sector hp.left,by rw [hp.cursor]; exact hq⟩,?_,?_,?_,?_,?_,?_⟩
  · rw [hp.cursor]
    exact h.cursor
  · rw [hposition]
    exact h.position
  · rw [hoffset]
    exact h.offset
  · rw [hposition,hsize]
    exact h.inside
  · rw [hposition,hsize]
    exact h.room
  · rw [hsize]
    exact h.size_lt

/-- After a seek to byte `t`. -/
theorem Landed.spot {B : ℕ → Sector} {t : ℕ} (h : Landed g cs t B f f') (ht : t ≤ f.size)
    (hsize : f.size ≤ g.span cs * 512) (hlt : f.size < 2^32) : f'.Spot g cs t := by
  have hsame := FileS.field_of_still FileS.size (fun _ => rfl) h.still
  have hoffset : f'.offset = t := h.place.position
  have hposition : f'.position = t := by rw [FileS.position_eq,hoffset,u32_of_lt (by omega)]
  refine ⟨⟨_,h.place.at_,h.place.position.symm⟩,h.place.cursor,?_,hoffset.le,?_,?_,hsame ▸ hlt⟩
  · rw [hposition,Nat.mod_eq_of_lt (by omega)]
  · rw [hposition,hsame]
    exact ht
  · rw [hposition,hsame]
    exact Nat.add_le_add_right hsize t

/-- A cluster has a number of sectors that divides the number of sectors of 2^32 bytes. -/
theorem FatInfo.Valid.spc_dvd (hg : g.Valid size) : g.sectorsPerCluster ∣ 2^23 := by
  obtain ⟨k,hk,hspc⟩ := hg.spc
  rw [hspc]
  exact Nat.pow_dvd_pow 2 (by omega)

/-- Another place as far from the byte its position names. -/
theorem FileS.Spot.shifted (h : f.Spot g cs p) {t q : ℕ} (ht : t ≤ f.size) (hat : f'.At g cs q)
    (hq : q*512 + f'.cursor = p / 2^32 * 2^32 + t) (hcursor : f'.cursor ≤ 512) (hposition : f'.position = t)
    (hoffset : f'.offset ≤ p / 2^32 * 2^32 + t) (hsize : f'.size = f.size) :
    f'.Spot g cs (p / 2^32 * 2^32 + t) := by
  have hroom := h.room
  have hlt := h.size_lt
  rw [h.position] at hroom
  refine ⟨⟨q,hat,hq.symm⟩,hcursor,?_,hoffset,?_,?_,hsize ▸ hlt⟩
  · rw [hposition]
    omega
  · rw [hposition,hsize]
    exact ht
  · rw [hposition,hsize]
    omega

theorem FileS.Spot.le (h : f.Spot g cs p) : p ≤ g.span cs * 512 := by
  obtain ⟨q,hat,rfl⟩ := h.place
  have := hat.inside
  have := h.cursor
  omega

end Spot

section Packed
variable {fd : Fd} {cs : List ℕ} {es en p : ℕ} {s t : FatState}

/-- A step that moves about in the chain and writes what it may. -/
theorem FatState.Packed.moved (h : s.Packed fd cs es en p) {B : ℕ → Sector} {f : FileS} (ht : After fd s t B f)
    (hhome : f.home = (s.fileNum fd).home)
    (hB : Spared s.fatfs cs es en s.dev.blocks B) {p' : ℕ} (hspot : f.Spot s.fatfs cs p') :
    Worked fd cs es en p' s t := by
  have hfield {α : Type} (u : FileS → α) (hu : ∀ f : FileS, u f.home = u f) :
      u (t.fileNum fd) = u (s.fileNum fd) := by rw [ht.file,← hu f,hhome,hu]
  have hsector := hfield FileS.entrySector fun _ => rfl
  have hnumber := hfield FileS.entryNumber fun _ => rfl
  have hfirst := hfield FileS.fullFirstCluster fun _ => rfl
  have htable {c : ℕ} (hc : c < s.fatfs.entries) : s.fatfs.entry B c = s.fatfs.entry s.dev.blocks c :=
    hB.entry h.volume (h.entrySector ▸ h.entry.behind) hc
  refine ⟨ht.but,ht.blocks ▸ hB,?_,?_,?_,?_,?_,?_,?_,?_,hsector.trans h.entrySector,hnumber.trans h.entryNumber,?_⟩
  · rw [ht.fatfs,ht.size]
    exact h.volume
  · rw [ht.fatfs,ht.blocks]
    exact fun c hc => htable hc ▸ h.full c hc
  · rw [ht.fatfs,ht.blocks,hfirst]
    exact h.chain.congr fun c hc => htable (h.chain.inRange c hc).2
  · rw [ht.fatfs]
    exact h.apart
  · exact (hfield (fun f => f.flags.open_) fun _ => rfl).trans h.open_
  · exact (hfield (fun f => f.flags.write) fun _ => rfl).trans h.write
  · exact (hfield FileS.isSubdir fun _ => rfl).trans h.regular
  · rw [ht.fatfs,ht.size]
    exact ⟨hfirst ▸ h.entry.notRoot,hfirst ▸ h.entry.cluster,hsector ▸ h.entry.behind,
      hsector ▸ h.entry.sector_lt,hnumber ▸ h.entry.number⟩
  · rw [ht.fatfs,ht.file]
    exact hspot

theorem Worked.refl (h : s.Packed fd cs es en p) : Worked fd cs es en p s s :=
  ⟨Std.Refl.refl s,Spared.refl _ _ _ _ _,h⟩

theorem Worked.trans {u : FatState} {p' : ℕ} (h : Worked fd cs es en p s t) (h' : Worked fd cs es en p' t u) :
    Worked fd cs es en p' s u :=
  ⟨IsTrans.trans _ _ _ h.but h'.but,h.spared.trans (h.but.fatfs ▸ h'.spared),h'.packed⟩

theorem FatState.Packed.reserved (h : s.Packed fd cs es en p) : s.fatfs.Reserved s.dev.blocks := by
  obtain ⟨c,hc⟩ := List.exists_mem_of_ne_nil cs (List.ne_nil_of_mem h.chain.links.head_mem)
  have := h.chain.inRange c hc
  unfold FatInfo.InRange at this
  exact ⟨h.full 0 (by omega),h.full 1 (by omega)⟩

/-- A byte put into the buffer. -/
theorem FatState.Packed.putByte (h : s.Packed fd cs es en p) (hin : (s.fileNum fd).cursor < 512) (c : UInt8) :
    Worked fd cs es en (p+1) s (s.putByte fd c) := by
  obtain ⟨q,hat,hp⟩ := h.spot.place
  have hlt : p < s.fatfs.span cs * 512 := by
    have := hat.inside
    omega
  have hafter := putByte_after s fd c
  have hposition := h.spot.position
  have hoffset := h.spot.offset
  have hinside := h.spot.inside
  have hroom := h.spot.room
  have hsize_lt := h.spot.size_lt
  have hsize := FileS.size_swell (s.fileNum fd) h.regular
  rw [hposition] at hinside hroom hsize
  rw [FileS.put_swell] at hafter
  have hposition' : ({ s.fileNum fd with
      buffer := (s.fileNum fd).buffer.set (s.fileNum fd).cursor c
      cursor := (s.fileNum fd).cursor + 1, size := (s.fileNum fd).swell.size
      flags.dirty := true, flags.fsDirty := (s.fileNum fd).swell.flags.fsDirty } : FileS).position = (p+1) % 2^32 := by
    rw [FileS.position_eq,FileS.offset,u32] at hposition ⊢
    dsimp only
    omega
  refine h.moved hafter rfl (.refl _ _ _ _ _) ⟨⟨q,hat.congr rfl rfl rfl,by rw [hp,Nat.add_assoc]⟩,hin,hposition',
    Nat.succ_le_succ hoffset,?_,?_,?_⟩
  · rw [hposition',hsize]
    unfold u32
    split <;> omega
  · rw [hposition',hsize]
    unfold u32
    split <;> omega
  · rw [hsize]
    unfold u32
    split <;> omega

end Packed

/-- The descriptor has used up the last sector of the chain. -/
def FileS.Behind (g : FatInfo) (cs : List ℕ) (f : FileS) : Prop := f.cursor = 512 ∧ f.At g cs (g.span cs - 1)

/-- Byte `t` is not the one behind the chain, whether as such or as the position of a descriptor that stands there. -/
structure FileS.Avoids (g : FatInfo) (cs : List ℕ) (t : ℕ) (f : FileS) : Prop where
  end_ : t ≠ g.span cs * 512
  here : f.Behind g cs → t ≠ f.position

theorem FileS.Spot.behind {g : FatInfo} {cs : List ℕ} {f : FileS} (h : f.Spot g cs (g.span cs * 512)) :
    f.Behind g cs := by
  obtain ⟨q,hat,hq⟩ := h.place
  have hcursor := h.cursor
  have hinside := hat.inside
  obtain rfl : q = g.span cs - 1 := by omega
  exact ⟨by omega,hat⟩

/-! ### Steps of a call -/

section NoFault
variable {E : Env} (hE : E.NoFault) (hfuel : 0 < E.fuel) {fd : Fd} {cs : List ℕ} {es en p : ℕ} {s : FatState}
  (h : s.Packed fd cs es en p)
include hE h

theorem fatFlush_packed : (fatFlush E fd).Returns s fun r t => r = 0 ∧
    t.fileNum fd = (s.fileNum fd).clean ∧ Worked fd cs es en p s t := by
  obtain ⟨q,hat,-⟩ := h.spot.place
  refine (fatFlushWith_returns hE (hat.sector_ne h.volume) (hat.sector_lt h.volume h.chain.inRange)).mono fun
    r t ht => ⟨ht.1,ht.2.file,h.moved ht.2 rfl (.flushed h.apart hat) ?_⟩
  exact h.spot.of_same ⟨rfl,rfl,rfl,rfl,rfl⟩ rfl

include hfuel

/-- A sector that is used up makes way for the next one, unless it is the last one of the chain. -/
theorem turnSector_packed : (turnSector E fd).Returns s fun failed t => Worked fd cs es en p s t ∧
    (t.fileNum fd).still = (s.fileNum fd).still ∧
    ((s.fileNum fd).flags.dirty = false → (t.fileNum fd).flags.dirty = false) ∧
    (failed = false → (t.fileNum fd).cursor < 512) ∧
    (failed = true → p = s.fatfs.span cs * 512 ∧ (t.fileNum fd).cursor = 512) := by
  have hcursor := h.spot.cursor
  refine returns_file (returns_ite (fun hend => ?_) fun hin => returns_pure ?_)
  · change (s.fileNum fd).cursor = 512 at hend
    obtain ⟨q,hat,hp⟩ := h.spot.place
    have hinside := hat.inside
    rw [hend] at hp
    have hnext : p = (q+1)*512 := by rw [hp,Nat.succ_mul]
    have hflush : Spared s.fatfs cs es en s.dev.blocks _ := .flushed h.apart hat
    by_cases hq : q + 1 < s.fatfs.span cs
    · refine (fatNextSectorWith_inside hE h.volume h.chain hat hq).mono fun failed t ht => ?_
      obtain ⟨rfl,ht,har,-⟩ := ht
      have hspot : (t.fileNum fd).Spot s.fatfs cs p := by
        have hzero := har.cursor
        have hsector := har.fileSector
        have hsize := FileS.field_of_still FileS.size (fun _ => rfl) har.still
        have hoffset := h.spot.offset
        have hposition := h.spot.position
        have hsame : (t.fileNum fd).position = (s.fileNum fd).position := by
          rw [FileS.position_eq,FileS.position_eq,FileS.offset,FileS.offset,hzero,hsector,hend]
          unfold u32
          omega
        refine ⟨⟨q+1,har.at_,by rw [hzero,Nat.add_zero,← hnext]⟩,by rw [hzero]; decide,
          hsame.trans hposition,?_,?_,?_,hsize ▸ h.spot.size_lt⟩
        · rw [FileS.offset,hend] at hoffset
          rw [FileS.offset,hzero,hsector]
          exact (Nat.add_le_add_right (Nat.mul_le_mul_right 512 (Nat.mod_le _ _)) 0).trans (by omega)
        · rw [hsame,hsize]
          exact h.spot.inside
        · rw [hsame,hsize]
          exact h.spot.room
      exact ⟨h.moved ht (FileS.home_of_still har.still) hflush hspot,har.still,fun _ => har.clean,
        fun _ => by rw [har.cursor]; decide,by simp⟩
    · have hlast : q + 1 = s.fatfs.span cs := by omega
      refine (fatNextSector_extend hE hfuel h.volume h.reserved h.chain hat hlast h.write h.entry).mono fun
        failed t ht => ?_
      rcases ht with ⟨k,reserved,hk,-⟩ | ⟨-,rfl,-,ht⟩
      · refine absurd hk.free ?_
        rw [h.volume.entry_flushed hk.inTable hat.dataStart_le]
        exact h.full k hk.inTable
      · refine ⟨h.moved ht rfl hflush (h.spot.of_same ⟨rfl,rfl,rfl,rfl,rfl⟩ rfl),?_,fun _ => ?_,by simp,fun _ => ?_⟩
        · rw [ht.file]
          rfl
        · rw [ht.file]
          rfl
        · rw [ht.file]
          exact ⟨hlast ▸ hnext,hend⟩
  · change (s.fileNum fd).cursor ≠ 512 at hin
    exact ⟨Worked.refl h,rfl,id,fun _ => by omega,by simp⟩

omit h in
/-- Bytes are accepted as long as the chain has room. -/
theorem writeLoop_packed (bytes : List UInt8) (h : s.Packed fd cs es en p) :
    (writeLoop E fd bytes).Returns s fun failed t => ∃ p', Worked fd cs es en p' s t ∧
      (s.fatfs.span cs * 512 < p + bytes.length → failed = true) := by
  induction bytes generalizing s p with
  | nil =>
    have hle := h.spot.le
    exact returns_pure ⟨p,Worked.refl h,fun hlt => by simp at hlt; omega⟩
  | cons c bytes ih =>
    have hcons := writeLoop_cons E fd c bytes s
    obtain ⟨failed,t,hrun,ht,-,-,hin,-⟩ := turnSector_packed hE hfuel h
    rw [bind_of_ok hrun] at hcons
    cases failed with
    | true => exact ⟨true,t,hcons,p,ht,fun _ => rfl⟩
    | false =>
      have hput := ht.packed.putByte (hin rfl) c
      obtain ⟨failed,u,hrest,p',hu,hfail⟩ := ih hput.packed
      refine ⟨failed,u,hcons.trans hrest,p',ht.trans (hput.trans hu),fun hlt => hfail ?_⟩
      rw [hput.but.fatfs,ht.but.fatfs]
      rw [List.length_cons] at hlt
      omega

omit hfuel in
/-- The seek behind its checks, once the buffer is written back and the next sector loaded if there is one. -/
theorem seekRest_packed {ptr : ℤ} {t : ℕ} (hclean : (s.fileNum fd).flags.dirty = false)
    (hsize : t ≤ (s.fileNum fd).size) (hend : t ≠ s.fatfs.span cs * 512)
    (hstuck : (s.fileNum fd).cursor < 512 ∨ p = s.fatfs.span cs * 512 ∧ t ≠ p % 2^32) :
    (seekRest E s.fatfs fd ptr (p % 2^32) t).Returns s fun _ u => ∃ p', Worked fd cs es en p' s u ∧ t ≤ p' := by
  have hroom := h.spot.room
  have hinside := h.spot.inside
  have hsize_lt := h.spot.size_lt
  have hposition := h.spot.position
  rw [hposition] at hroom hinside
  have hfile : (s.fileNum fd).size ≤ s.fatfs.span cs * 512 := by omega
  have hlt : t < s.fatfs.span cs * 512 := by omega
  have hlanded {u : FatState} (hu : After fd s u s.dev.blocks (u.fileNum fd) ∧
      Landed s.fatfs cs t s.dev.blocks (s.fileNum fd) (u.fileNum fd)) :
      ∃ p', Worked fd cs es en p' s u ∧ t ≤ p' :=
    ⟨t,h.moved hu.1 (FileS.home_of_still hu.2.still) (.refl _ _ _ _ _) (hu.2.spot hsize hfile hsize_lt),le_rfl⟩
  have hchain (hother : t / 512 / s.fatfs.sectorsPerCluster ≠ p % 2^32 / 512 / s.fatfs.sectorsPerCluster) :
      (seekRest E s.fatfs fd ptr (p % 2^32) t).Returns s fun _ u => ∃ p', Worked fd cs es en p' s u ∧ t ≤ p' :=
    (seekRest_chain hE h.volume h.chain hclean rfl hlt hother).mono fun _ _ hu => hlanded hu.2
  rcases hstuck with hcursor | ⟨rfl,hne⟩
  swap
  -- behind the chain: the position is the first one of a cluster, and the target lies before it
  · refine hchain (Nat.ne_of_lt ?_)
    have hdvd : s.fatfs.sectorsPerCluster * 512 ∣ s.fatfs.span cs * 512 % 2^32 := by
      refine (Nat.dvd_mod_iff (Nat.mul_dvd_mul_right h.volume.spc_dvd 512)).2 ?_
      rw [FatInfo.span,Nat.mul_assoc]
      exact Nat.dvd_mul_left _ _
    obtain ⟨w,hw⟩ := hdvd
    have hpos : 0 < s.fatfs.sectorsPerCluster * 512 := Nat.mul_pos h.volume.spc_pos (by decide)
    rw [← FatInfo.cluster_of_byte,← FatInfo.cluster_of_byte]
    change t / (s.fatfs.sectorsPerCluster * 512) < _ / (s.fatfs.sectorsPerCluster * 512)
    rw [hw,Nat.mul_div_cancel_left w hpos]
    exact Nat.div_lt_of_lt_mul (by omega)
  obtain ⟨q,hat,hp⟩ := h.spot.place
  have hoffset := h.spot.offset
  have hmod : t % 512 < 512 := Nat.mod_lt _ (by decide)
  change Returns (if p % 2^32 / 512 = t / 512 then _ else _) _ _
  refine returns_ite (fun hsame => ?_) fun hother => ?_
  -- in the same sector
  · have hspot : ({ s.fileNum fd with cursor := t % 512 } : FileS).Spot s.fatfs cs (p / 2^32 * 2^32 + t) := by
      refine h.spot.shifted hsize (hat.congr ?_ ?_ ?_) ?_ hmod.le ?_ ?_ ?_
      · rfl
      · rfl
      · rfl
      · change q*512 + t % 512 = _
        omega
      · rw [FileS.position_eq,FileS.offset,u32] at hposition ⊢
        change ((s.fileNum fd).fileSector * 512 + t % 512) % 2^32 = t
        omega
      · rw [FileS.offset] at hoffset
        change (s.fileNum fd).fileSector * 512 + t % 512 ≤ _
        omega
      · rfl
    exact (updateFile_returns fd _ s).bind fun _ u hu => returns_pure
      ⟨_,h.moved hu rfl (.refl _ _ _ _ _) hspot,Nat.le_add_left _ _⟩
  rw [FatInfo.cluster_of_byte,FatInfo.cluster_of_byte]
  refine returns_ite (fun hcluster => ?_) fun _ => ?_
  swap
  · exact (seekChain_inside hE h.volume h.chain hclean rfl ptr (by omega)).mono fun _ _ hu => hlanded hu.2
  -- some sectors forward or back: so many clusters of the chain lie between the position and the place
  obtain ⟨q',hq'⟩ : ∃ q', q' = p / 2^32 * 2^23 + t / 512 := ⟨_,rfl⟩
  have hplace : q'*512 + t % 512 = p / 2^32 * 2^32 + t := by omega
  obtain ⟨m,hm⟩ := h.volume.spc_dvd
  have hqo : q = s.fatfs.sectorsPerCluster * (p / 2^32 * m) + p % 2^32 / 512 := by
    rw [Nat.mul_left_comm,← hm]
    omega
  have hqt : q' = s.fatfs.sectorsPerCluster * (p / 2^32 * m) + t / 512 := by
    rw [Nat.mul_left_comm,← hm]
    exact hq'
  have hsame : q' / s.fatfs.sectorsPerCluster = q / s.fatfs.sectorsPerCluster := by
    rw [hqo,hqt,Nat.mul_add_div h.volume.spc_pos,Nat.mul_add_div h.volume.spc_pos,hcluster]
  have hinside' : q' < s.fatfs.span cs := by
    refine (Nat.div_lt_iff_lt_mul h.volume.spc_pos).1 ?_
    rw [hsame]
    exact h.volume.index_lt hat.inside
  have hapart := @FatInfo.sectorAt_same s.fatfs cs _ _ hsame
  have hsector := h.volume.sectorAt_lt h.chain.inRange hinside'
  have hsec : u32 ((s.fileNum fd).sector + t / 512 + 2^32 - p % 2^32 / 512) = s.fatfs.sectorAt cs q' := by
    have := h.volume.size
    rw [hat.sector]
    unfold u32
    omega
  have hleft : u8 ((s.fileNum fd).sectorsLeft + p % 2^32 / 512 + 2^32 - t / 512) =
      s.fatfs.sectorsPerCluster - 1 - q' % s.fatfs.sectorsPerCluster := by
    have hspc := h.volume.spc_le
    have h₁ := Nat.div_add_mod (t / 512) s.fatfs.sectorsPerCluster
    have h₂ := Nat.div_add_mod (p % 2^32 / 512) s.fatfs.sectorsPerCluster
    have h₃ := Nat.mod_lt (t / 512) h.volume.spc_pos
    have h₄ := Nat.mod_lt (p % 2^32 / 512) h.volume.spc_pos
    rw [hcluster] at h₁
    rw [hat.left,hqo,hqt,Nat.mul_add_mod,Nat.mul_add_mod]
    unfold u8
    omega
  refine (updateFile_returns fd _ s).bind fun _ u hu => returns_file ?_
  change After fd s u _ { s.fileNum fd with
    fileSector := t / 512
    sector := u32 ((s.fileNum fd).sector + t / 512 + 2^32 - p % 2^32 / 512)
    sectorsLeft := u8 ((s.fileNum fd).sectorsLeft + p % 2^32 / 512 + 2^32 - t / 512)
    cursor := t % 512 } at hu
  rw [hsec,hleft] at hu
  rw [hu.file]
  refine (readBuffer_returns hE (by rw [hu.size]; exact hsector.2)).bind fun failed v hv => ?_
  obtain ⟨rfl,hv⟩ := hv
  rw [hu.blocks,hu.file] at hv
  have hoff : t / 512 * 512 + t % 512 = t := Nat.div_add_mod' t 512
  have hspot : (v.fileNum fd).Spot s.fatfs cs (p / 2^32 * 2^32 + t) := by
    rw [hv.file]
    refine h.spot.shifted hsize ⟨hinside',?_,?_,?_⟩ ?_ hmod.le ?_ ?_ ?_
    · rw [hsame]
      exact hat.cluster
    · rfl
    · rfl
    · exact hplace
    · rw [FileS.position_eq,FileS.offset]
      change u32 (t / 512 * 512 + t % 512) = t
      rw [hoff,u32_of_lt (by omega)]
    · rw [FileS.offset]
      change t / 512 * 512 + t % 512 ≤ _
      omega
    · rfl
  refine returns_ite (by simp) fun _ => returns_pure
    ⟨_,h.moved (hu.trans hv).self ?_ (.refl _ _ _ _ _) hspot,Nat.le_add_left _ _⟩
  rw [hv.file]
  rfl

/-- A seek that does not go behind the chain. -/
theorem seekSlot_packed {ptr : ℤ} {dir : Whence}
    (havoid : (s.fileNum fd).Avoids s.fatfs cs ((s.fileNum fd).target ptr dir)) :
    (seekSlot E ptr dir fd).Returns s fun _ u => ∃ p', Worked fd cs es en p' s u ∧
      ((s.fileNum fd).target ptr dir ≤ (s.fileNum fd).size → (s.fileNum fd).target ptr dir ≤ p') := by
  refine returns_file (returns_ite (by simp [h.open_]) fun _ => ?_)
  refine (fatFlush_packed hE h).bind fun r t ht => ?_
  obtain ⟨-,hfile,ht⟩ := ht
  refine returns_file (returns_fatfs ?_)
  rw [hfile]
  change Returns (if (s.fileNum fd).size < (s.fileNum fd).target ptr dir ∧ _ then _ else _) _ _
  refine returns_ite (fun hbeyond => returns_pure ⟨p,ht,fun hle => by omega⟩) fun hbeyond => ?_
  have hsize : (s.fileNum fd).target ptr dir ≤ (s.fileNum fd).size := by
    have := h.regular
    by_contra hlt
    exact hbeyond ⟨by omega,h.regular⟩
  have hturn := turnSector_packed hE hfuel ht.packed
  rw [turnSector] at hturn
  change Returns (if (t.fileNum fd).cursor = blockSize then _ else _) _ _ at hturn
  rw [hfile] at hturn
  refine hturn.bind fun failed u hu => ?_
  obtain ⟨hu,hstill,hclean,hin,hend⟩ := hu
  have hfatfs : u.fatfs = s.fatfs := hu.but.fatfs.trans ht.but.fatfs
  have hsize' : (u.fileNum fd).size = (s.fileNum fd).size := FileS.field_of_still FileS.size (fun _ => rfl) hstill
  have hposition : (s.fileNum fd).clean.position = p % 2^32 := h.spot.position
  rw [ht.but.fatfs,hposition]
  have hrest := @seekRest_packed E hE fd cs es en p u hu.packed ptr ((s.fileNum fd).target ptr dir) (hclean rfl)
    (hsize' ▸ hsize) (hfatfs ▸ havoid.end_) ?_
  · rw [hfatfs] at hrest
    refine hrest.mono fun r v hv => ?_
    obtain ⟨p',hv,hle⟩ := hv
    exact ⟨p',ht.trans (hu.trans hv),fun _ => hle⟩
  · cases failed with
    | false => exact .inl (hin rfl)
    | true =>
      obtain ⟨rfl,-⟩ := hend rfl
      rw [ht.but.fatfs] at hposition
      refine .inr ⟨by rw [ht.but.fatfs,hfatfs],?_⟩
      rw [ht.but.fatfs]
      exact fun heq => havoid.here (ht.but.fatfs ▸ h.spot).behind (heq.trans hposition.symm)

omit hE hfuel in
/-- The time of the last change is set. -/
theorem fatUpdateMtime_packed : (fatUpdateMtime E fd).Returns s fun _ t => Worked fd cs es en p s t := by
  refine (fatUpdateMtime_returns E fd s).mono fun _ t ht => ?_
  obtain ⟨now,ht⟩ := ht
  exact h.moved ht rfl (.refl _ _ _ _ _) (h.spot.of_same ⟨rfl,rfl,rfl,rfl,rfl⟩ rfl)

/-- A call of `fat_write` that does not append behind the chain. It fails if it needs a cluster more. -/
theorem fatWrite_packed {bytes : List UInt8} (havoid : (s.fileNum fd).flags.append = true →
      (s.fileNum fd).Avoids s.fatfs cs (s.fileNum fd).size) :
    (fatWrite E fd.val bytes).Returns s fun r t => ∃ p', Worked fd cs es en p' s t ∧
      (s.fatfs.span cs * 512 < (if (s.fileNum fd).flags.append then (s.fileNum fd).size
        else (s.fileNum fd).offset) + bytes.length → r.1 = -1) := by
  rw [fatWrite,withFd,dif_pos fd.isLt,writeSlot]
  refine returns_file (returns_ite (by simp [h.open_,h.write]) fun _ => ?_)
  have hseek : (if (s.fileNum fd).flags.append then seekSlot E 0 .end_ fd else pure (0,0)).Returns s fun _ t =>
      ∃ p', Worked fd cs es en p' s t ∧ (if (s.fileNum fd).flags.append then (s.fileNum fd).size
        else (s.fileNum fd).offset) ≤ p' := by
    by_cases happend : (s.fileNum fd).flags.append = true
    · have htarget : (s.fileNum fd).target 0 .end_ = (s.fileNum fd).size := by
        rw [FileS.target,Int.add_zero]
        exact u32OfInt_natCast h.spot.size_lt
      rw [if_pos happend,if_pos happend]
      refine (seekSlot_packed hE hfuel h (by rw [htarget]; exact havoid happend)).mono fun _ t ht => ?_
      obtain ⟨p',ht,hle⟩ := ht
      rw [htarget] at hle
      exact ⟨p',ht,hle le_rfl⟩
    · rw [if_neg happend,if_neg happend]
      exact returns_pure ⟨p,Worked.refl h,h.spot.offset⟩
  refine hseek.bind fun q t ht => ?_
  obtain ⟨p',ht,hle⟩ := ht
  refine (writeLoop_packed hE hfuel bytes ht.packed).bind fun failed u hu => ?_
  obtain ⟨p'',hu,hfail⟩ := hu
  rw [ht.but.fatfs] at hfail
  refine returns_ite (fun _ => returns_pure ⟨p'',ht.trans hu,fun _ => rfl⟩) fun hdone => ?_
  have htime : (if 0 < bytes.length then fatUpdateMtime E fd else pure ()).Returns u fun _ v =>
      Worked fd cs es en p'' u v :=
    returns_ite (fun _ => fatUpdateMtime_packed hu.packed) fun _ => returns_pure (Worked.refl hu.packed)
  refine htime.bind fun _ v hv => returns_pure ⟨p'',ht.trans (hu.trans hv),fun hlt => ?_⟩
  exact absurd (hfail (by omega)) hdone

/-- A call of `fat_lseek` that does not go behind the chain. -/
theorem fatLseek_packed {ptr : ℤ} {dir : Whence}
    (havoid : (s.fileNum fd).Avoids s.fatfs cs ((s.fileNum fd).target ptr dir)) :
    (fatLseek E fd.val ptr dir).Returns s fun _ t => ∃ p', Worked fd cs es en p' s t := by
  rw [fatLseek,withFd,dif_pos fd.isLt]
  refine (seekSlot_packed hE hfuel h havoid).mono fun _ t ht => ?_
  obtain ⟨p',ht,-⟩ := ht
  exact ⟨p',ht⟩

/-- `fat_close` stores what is left to store and gives the descriptor back. -/
theorem fatClose_packed : (fatClose E fd.val).Returns s fun _ t =>
    Spared s.fatfs cs es en s.dev.blocks t.dev.blocks ∧ (t.fileNum fd).flags.open_ = false := by
  rw [fatClose,withFd,dif_pos fd.isLt,closeSlot]
  refine returns_file (returns_ite (by simp [h.open_]) fun _ => ?_)
  have hflush : (if (s.fileNum fd).flags.dirty then do pure ((← fatFlush E fd) != 0) else pure false :
      FatM Bool).Returns s fun failed t => failed = false ∧ Worked fd cs es en p s t := by
    refine returns_ite (fun _ => ?_) fun _ => returns_pure ⟨rfl,Worked.refl h⟩
    refine (fatFlush_packed hE h).bind fun r t ht => returns_pure ?_
    obtain ⟨rfl,-,ht⟩ := ht
    exact ⟨rfl,ht⟩
  refine hflush.bind fun failed t ht => ?_
  obtain ⟨rfl,ht⟩ := ht
  refine returns_ite (by simp) fun _ => returns_file ?_
  have hstore : (if (t.fileNum fd).flags.fsDirty then do pure ((← fatFlushFileinfo E fd) != 0) else pure false :
      FatM Bool).Returns t fun failed u => failed = false ∧ Spared s.fatfs cs es en s.dev.blocks u.dev.blocks := by
    refine returns_ite (fun _ => ?_) fun _ => returns_pure ⟨rfl,ht.spared⟩
    have hp := ht.packed
    obtain ⟨q,hat,-⟩ := hp.spot.place
    have hstored := fatFlushFileinfo_existing hE hfuel (hp.entry.not_skip hp.volume) (.inr (hat.sector_ne hp.volume))
      (hp.entry.sector_ne hp.volume) hp.entry.sector_lt (hat.sector_lt hp.volume hp.chain.inRange)
    refine hstored.bind fun r u hu => returns_pure ?_
    obtain ⟨rfl,reserved,hu⟩ := hu
    refine ⟨rfl,ht.spared.trans ?_⟩
    rw [hu.blocks]
    exact (Spared.flushed (ht.but.fatfs ▸ hp.apart) (ht.but.fatfs ▸ hat)).trans
      (.stored hp.entrySector hp.entryNumber reserved)
  refine hstore.bind fun failed u hu => ?_
  obtain ⟨rfl,hu⟩ := hu
  refine returns_ite (by simp) fun _ => ?_
  refine (updateFile_returns fd _ u).bind fun _ v hv => returns_pure ⟨?_,?_⟩
  · rw [hv.blocks]
    exact hu
  · rw [hv.file]
    rfl

end NoFault

/-! ### Opening the file -/

section Open
variable {g : FatInfo} {B : ℕ → Sector} {size b i : ℕ} {cs : List ℕ}

/-- The block of a file's entry is no sector of the file. -/
theorem FatInfo.LiveSlot.not_owns (hslot : g.LiveSlot B b i) (hg : g.Valid size) (hcons : g.Consistent B)
    (hfile : ((B b).dirent i).isSubdir = false) (hcs : g.Chain B (((B b).dirent i).cluster g) cs) :
    ¬ g.Owns cs b := by
  intro hown
  obtain ⟨c,secs,hc,hsecs,hmem⟩ := id hslot
  obtain ⟨hb,-⟩ := FatInfo.mem_live hmem
  cases hsecs with
  | fixed h16 =>
    have hfixed := (hg.fat16_of_type h16).fixed
    obtain ⟨k,hk,rfl⟩ := List.mem_map.1 hb
    rw [List.mem_range] at hk
    obtain ⟨d,-,j,-,hd⟩ := hg.owns_cluster hown
    rw [FatInfo.clusterSector] at hd
    omega
  | chain hchain =>
    obtain ⟨q,hq,rfl⟩ := List.mem_map.1 hb
    rw [List.mem_range] at hq
    obtain ⟨o,ho,hdir⟩ := hc.owner hchain
    refine hg.not_owns hchain.inRange hcs.inRange (hcons.apart _ _ _ _ ho (.slot hslot hcs) ?_) ⟨q,hq,rfl⟩ hown
    intro heq
    rw [hdir _ _ heq] at hfile
    exact absurd hfile (by decide)

/-- A regular file with a chain is not the root directory. -/
theorem FatInfo.LiveSlot.ne_root (hslot : g.LiveSlot B b i) (hcons : g.Consistent B)
    (hcs : g.Chain B (((B b).dirent i).cluster g) cs) : ((B b).dirent i).cluster g ≠ g.rootCluster := by
  intro heq
  have hhead := hcs.links.head_mem
  exact absurd (hcons.owner_eq (.root (heq ▸ hcs)) (.slot hslot hcs) hhead hhead) (by simp)

/-- The descriptor of a file with bytes, opened for writing and not truncated, on a volume without a free cluster. -/
theorem fatOpen_packed {E : Env} (hE : E.NoFault) {path : List UInt8} {names : List (Option DosName)}
    {flags : OpenFlags} {mode : ℕ} {e e' : ℤ} {s t : FatState} {fd : Fd} {p : ℕ} (hg : s.fatfs.Valid s.dev.size)
    (hfuel : E.Ample s.fatfs) (hcons : s.fatfs.Consistent s.dev.blocks) (hfull : s.fatfs.Full s.dev.blocks)
    (hlen : path.length ≤ 99) (hconv : Converts (s.garbage E) ((pathElements path).take 20) names)
    (hwalk : Walk s.fatfs s.dev.blocks (s.fatfs.TreeDir s.dev.blocks) s.fatfs.rootCluster (nameBytes names)
      (.entry p b i))
    (hslot : s.fatfs.LiveSlot s.dev.blocks b i) (hfile : ((s.dev.blocks b).dirent i).isSubdir = false)
    (hcs : s.fatfs.Chain s.dev.blocks (((s.dev.blocks b).dirent i).cluster s.fatfs) cs)
    (hwrite : flags.wronly = true ∨ flags.rdwr = true) (htrunc : flags.trunc = false)
    (hopen : fatOpen E path flags mode e s = .ok ((fd.val,e'),t)) :
    After fd s t s.dev.blocks (t.fileNum fd) ∧ t.Packed fd cs b i 0 := by
  have hne : (fd.val : ℤ) ≠ -1 := by omega
  have hfree : ∃ fd, s.FreeSlot fd := by
    rcases fatOpen_session hopen with ⟨hk,-⟩ | ⟨r,-,hsession⟩
    · exact absurd hk hne
    · exact exists_freeSlot ⟨r,hsession.closed⟩
  obtain ⟨r,hfree⟩ := hfree
  obtain ⟨q,u,hu,hafter,-,hq,hholds⟩ := @fatLookupPath_returns E hE r path names e (s.taken r) _ hg
    (fun c secs h => hfuel.scanned hg h) hlen hconv (hwalk.mono fun c secs h => h.2)
    (by rw [FatState.taken,FatState.setFile_self])
  subst hq
  rw [fatOpen_lookup hfree hu,if_neg (by simp),if_neg (by simp),if_pos rfl] at hopen
  obtain rfl : fd = r := Fin.ext (by
    have := (openExisting_result hopen).resolve_left hne
    dsimp only at this
    omega)
  have hkept := openExisting_kept hopen hne (.inl htrunc)
  rw [(updateFile_after fd (FileS.granted flags) u).blocks,hafter.blocks] at hkept
  have htaken := updateFile_after fd (fun f => { f with flags := .justOpen }) s
  have hgrant := updateFile_after fd (FileS.granted flags) u
  rw [hafter.blocks] at hgrant
  have ht : After fd s t s.dev.blocks _ := (htaken.trans hafter).trans (hgrant.trans hkept)
  rw [FatState.setFile_self] at ht
  have hfirst : (u.fileNum fd).fullFirstCluster = ((s.dev.blocks b).dirent i).cluster s.fatfs := by
    have hne : ((s.dev.blocks b).dirent i).cluster s.fatfs ≠ 0 := by
      have := (hcs.inRange _ hcs.links.head_mem).1
      omega
    rw [hholds.first]
    exact if_neg hne
  have hat : (u.fileNum fd).At s.fatfs cs 0 := by
    have hpos := hcs.links.length_pos
    have hselect := (hg.select_at hcs.inRange hpos (u.fileNum fd)).1
    have hhead : cs[0] = (u.fileNum fd).fullFirstCluster := by
      have := hcs.links.getElem_zero
      rw [List.getElem?_eq_getElem hpos] at this
      exact (Option.some.inj this).trans hfirst.symm
    rw [Nat.zero_mul,hhead] at hselect
    exact hholds.selected ▸ hselect
  have hroom : ((s.dev.blocks b).dirent i).size ≤ s.fatfs.span cs * 512 := by
    obtain ⟨cs',hcs',hsize⟩ := hcons.files b i hslot hfile
    rcases hcs' with ⟨hzero,-⟩ | ⟨-,hcs'⟩
    · have hrange := (hcs.inRange _ hcs.links.head_mem).1
      rw [hzero] at hrange
      exact absurd hrange (by decide)
    · exact hcs.links.unique hcs'.links ▸ hsize
  have hsubdir : (u.fileNum fd).isSubdir = false := by
    rw [FileS.isSubdir,hholds.attributes]
    exact hfile
  obtain ⟨hlt,hbehind,hnumber⟩ := hslot.mem hg
  refine ⟨ht.self,?_,?_,?_,?_,?_,?_,?_,?_,?_,?_,?_⟩
  · rw [ht.fatfs,ht.size]
    exact hg
  · rw [ht.fatfs,ht.blocks]
    exact hfull
  · rw [ht.fatfs,ht.blocks,ht.file]
    exact hfirst ▸ hcs
  · rw [ht.fatfs]
    exact hslot.not_owns hg hcons hfile hcs
  · rw [ht.file]
    change ((u.fileNum fd).flags.access flags).open_ = true
    rw [hholds.flags]
    rfl
  · rw [ht.file]
    change ((u.fileNum fd).flags.access flags).write = true
    rw [hholds.flags]
    rcases hwrite with h | h <;> simp [Flags.access,h]
  · rw [ht.file]
    exact hsubdir
  · rw [ht.fatfs,ht.size,ht.file]
    refine ⟨?_,?_,?_,?_,?_⟩
    · exact hfirst ▸ hslot.ne_root hcons hcs
    · have hrange := (hcs.inRange _ hcs.links.head_mem).1
      rw [← hfirst] at hrange
      exact Nat.ne_of_gt (Nat.lt_of_lt_of_le Nat.zero_lt_two hrange)
    · exact hholds.entrySector ▸ hbehind
    · exact hholds.entrySector ▸ hlt
    · exact hholds.entryNumber ▸ hnumber
  · rw [ht.file]
    exact hholds.entrySector
  · rw [ht.file]
    exact hholds.entryNumber
  · rw [ht.fatfs,ht.file]
    have hsize : (u.fileNum fd).size = ((s.dev.blocks b).dirent i).size := hholds.size
    have hcursor := hholds.cursor
    have hposition : ({ FileS.granted flags (u.fileNum fd) with fileSector := 0 } : FileS).position = 0 := by
      rw [FileS.position_eq,FileS.offset]
      change u32 (0*512 + (u.fileNum fd).cursor) = 0
      rw [hcursor]
      rfl
    refine ⟨⟨0,hat.congr rfl rfl rfl,?_⟩,?_,hposition,?_,?_,?_,?_⟩
    · change 0 = 0*512 + (u.fileNum fd).cursor
      rw [hcursor]
    · exact hcursor.le.trans (Nat.zero_le _)
    · rw [FileS.offset]
      change 0*512 + (u.fileNum fd).cursor ≤ 0
      rw [hcursor]
    · rw [hposition]
      exact Nat.zero_le _
    · rw [hposition,Nat.add_zero,Nat.add_zero]
      exact hsize.le.trans hroom
    · exact hsize ▸ dirent_size_lt (s.dev.blocks b) i

end Open

/-! ### Runs of calls -/

/-- A call of `fat_write`, `fat_lseek` or `fat_close` on the descriptor. -/
def Call.Works (fd : Fd) : Call → Prop
  | .write fd' _ | .lseek fd' _ _ | .close fd' => fd' = fd.val
  | _ => False

/-- The call does not take the descriptor behind the chain of its file. -/
def Call.Avoids (g : FatInfo) (cs : List ℕ) (f : FileS) : Call → Prop
  | .write _ _ => f.flags.append = true → f.Avoids g cs f.size
  | .lseek _ ptr dir => f.Avoids g cs (f.target ptr dir)
  | _ => True

/-- The call is to write a byte behind the chain. -/
def Call.Outgrows (g : FatInfo) (cs : List ℕ) (f : FileS) : Call → Prop
  | .write _ bytes => g.span cs * 512 < (if f.flags.append then f.size else f.offset) + bytes.length
  | _ => False

/-- A call on the descriptor that, as long as this is open, does not go behind the chain. -/
def Call.Inside (fd : Fd) (cs : List ℕ) (s : FatState) (c : Call) : Prop :=
  c.Works fd ∧ ((s.fileNum fd).flags.open_ = true → c.Avoids s.fatfs cs (s.fileNum fd))

/-- A call that stays inside and returns. -/
def InsideStep (E : Env) (fd : Fd) (cs : List ℕ) (s : FatState) (c : Call) (t : FatState) : Prop :=
  c.Inside fd cs s ∧ Step E s c t

/-- The descriptor is closed, or still on the file. -/
def FatState.AtWork (fd : Fd) (cs : List ℕ) (es en : ℕ) (s : FatState) : Prop :=
  (s.fileNum fd).flags.open_ = false ∨ ∃ p, s.Packed fd cs es en p

/-- On a closed descriptor the calls fail and change nothing. -/
theorem exec_closed {E : Env} {fd : Fd} {s : FatState} {c : Call} (hc : c.Works fd)
    (hclosed : (s.fileNum fd).flags.open_ = false) : (c.exec E).Returns s fun r t => t = s ∧
      ∀ g cs f, c.Outgrows g cs f → r.result = -1 := by
  cases c with
  | write fd' bytes =>
    obtain rfl : fd' = fd.val := hc
    have hfail : (fatWrite E fd.val bytes).Returns s fun r t => t = s ∧ r.1 = -1 := by
      rw [fatWrite,withFd,dif_pos fd.isLt,writeSlot]
      exact returns_file (returns_ite (fun _ => returns_pure ⟨rfl,rfl⟩) (by simp [hclosed]))
    exact hfail.bind fun r t ht => returns_pure ⟨ht.1,fun _ _ _ _ => ht.2⟩
  | lseek fd' ptr dir =>
    obtain rfl : fd' = fd.val := hc
    have hfail : (fatLseek E fd.val ptr dir).Returns s fun r t => t = s := by
      rw [fatLseek,withFd,dif_pos fd.isLt,seekSlot]
      exact returns_file (returns_ite (fun _ => returns_pure rfl) (by simp [hclosed]))
    exact hfail.bind fun r t ht => returns_pure ⟨ht,fun _ _ _ h => h.elim⟩
  | close fd' =>
    obtain rfl : fd' = fd.val := hc
    have hfail : (fatClose E fd.val).Returns s fun r t => t = s := by
      rw [fatClose,withFd,dif_pos fd.isLt,closeSlot]
      exact returns_file (returns_ite (fun _ => returns_pure rfl) (by simp [hclosed]))
    exact hfail.bind fun r t ht => returns_pure ⟨ht,fun _ _ _ h => h.elim⟩
  | _ => exact hc.elim

section Runs
variable {E : Env} (hE : E.NoFault) (hfuel : 0 < E.fuel) {fd : Fd} {cs : List ℕ} {es en : ℕ}
include hE hfuel

/-- What one call does. -/
theorem exec_inside {s : FatState} {c : Call} (h : s.AtWork fd cs es en) (hc : c.Inside fd cs s) :
    (c.exec E).Returns s fun r t => t.fatfs = s.fatfs ∧ Spared s.fatfs cs es en s.dev.blocks t.dev.blocks ∧
      t.AtWork fd cs es en ∧ (c.Outgrows s.fatfs cs (s.fileNum fd) → r.result = -1) := by
  obtain ⟨hworks,havoid⟩ := hc
  rcases h with hclosed | ⟨p,h⟩
  · refine (exec_closed hworks hclosed).mono fun r t ht => ?_
    obtain ⟨rfl,hr⟩ := ht
    exact ⟨rfl,.refl _ _ _ _ _,.inl hclosed,hr _ _ _⟩
  have havoid := havoid h.open_
  cases c with
  | write fd' bytes =>
    obtain rfl : fd' = fd.val := hworks
    refine (fatWrite_packed hE hfuel h havoid).bind fun r t ht => returns_pure ?_
    obtain ⟨p',ht,hr⟩ := ht
    exact ⟨ht.but.fatfs,ht.spared,.inr ⟨p',ht.packed⟩,hr⟩
  | lseek fd' ptr dir =>
    obtain rfl : fd' = fd.val := hworks
    refine (fatLseek_packed hE hfuel h havoid).bind fun r t ht => returns_pure ?_
    obtain ⟨p',ht⟩ := ht
    exact ⟨ht.but.fatfs,ht.spared,.inr ⟨p',ht.packed⟩,fun hout => hout.elim⟩
  | close fd' =>
    obtain rfl : fd' = fd.val := hworks
    have hbut : Keeps (SameBut fd) (fatClose E fd.val) := withFd_keeps (closeSlot_sameBut E fd)
    refine ((fatClose_packed hE hfuel h).keeps hbut).bind fun r t ht => returns_pure ?_
    obtain ⟨⟨hspared,hclosed⟩,hbut⟩ := ht
    exact ⟨hbut.fatfs,hspared,.inl hclosed,fun hout => hout.elim⟩
  | _ => exact hworks.elim

/-- What a run does. -/
theorem runs_inside {s t : FatState} {calls : List Call} (h : s.AtWork fd cs es en)
    (hrun : Steps (InsideStep E fd cs) s calls t) : t.fatfs = s.fatfs ∧
      Spared s.fatfs cs es en s.dev.blocks t.dev.blocks ∧ t.AtWork fd cs es en := by
  induction hrun with
  | nil s => exact ⟨rfl,.refl _ _ _ _ _,h⟩
  | cons head tail ih =>
    obtain ⟨hc,r,hr⟩ := head
    obtain ⟨hfatfs,hspared,hwork,-⟩ := (exec_inside hE hfuel h hc).of_ok hr
    obtain ⟨hfatfs',hspared',hwork'⟩ := ih hwork
    exact ⟨hfatfs'.trans hfatfs,hspared.trans (hfatfs ▸ hspared'),hwork'⟩

end Runs

/-- On a consistent volume without a free cluster: whatever calls work on a descriptor that was opened for
writing without `O_TRUNC`, as long as none goes to the byte behind the chain of the file, they change nothing but
the file, and each of them that is to write a byte behind the chain fails. -/
theorem fullVolume_spared {E : Env} (hE : E.NoFault) {path : List UInt8} {names : List (Option DosName)}
    {flags : OpenFlags} {mode : ℕ} {e e' : ℤ} {s t u : FatState} {fd : Fd} {p b i : ℕ} {cs : List ℕ}
    {calls : List Call} (hg : s.fatfs.Valid s.dev.size)
    (hfuel : E.Ample s.fatfs) (hcons : s.fatfs.Consistent s.dev.blocks) (hfull : s.fatfs.Full s.dev.blocks)
    (hlen : path.length ≤ 99) (hconv : Converts (s.garbage E) ((pathElements path).take 20) names)
    (hwalk : Walk s.fatfs s.dev.blocks (s.fatfs.TreeDir s.dev.blocks) s.fatfs.rootCluster (nameBytes names)
      (.entry p b i))
    (hslot : s.fatfs.LiveSlot s.dev.blocks b i) (hfile : ((s.dev.blocks b).dirent i).isSubdir = false)
    (hcs : s.fatfs.Chain s.dev.blocks (((s.dev.blocks b).dirent i).cluster s.fatfs) cs)
    (hwrite : flags.wronly = true ∨ flags.rdwr = true) (htrunc : flags.trunc = false)
    (hopen : fatOpen E path flags mode e s = .ok ((fd.val,e'),t)) (hrun : Steps (InsideStep E fd cs) t calls u) :
    Spared s.fatfs cs b i s.dev.blocks u.dev.blocks ∧ ∀ c : Call, c.Inside fd cs u →
      (c.exec E).Returns u fun r v => Spared s.fatfs cs b i s.dev.blocks v.dev.blocks ∧
        (c.Outgrows s.fatfs cs (u.fileNum fd) → r.result = -1) := by
  obtain ⟨ht,hpacked⟩ := fatOpen_packed hE hg hfuel hcons hfull hlen hconv hwalk hslot hfile hcs hwrite htrunc hopen
  have hpos : 0 < E.fuel := by
    unfold Env.Ample at hfuel
    omega
  obtain ⟨hfatfs,hspared,hwork⟩ := runs_inside hE hpos (.inr ⟨0,hpacked⟩) hrun
  rw [ht.fatfs] at hfatfs hspared
  rw [ht.blocks] at hspared
  refine ⟨hspared,fun c hc => (exec_inside hE hpos hwork hc).mono fun r v hv => ?_⟩
  obtain ⟨-,hv,-,hr⟩ := hv
  rw [hfatfs] at hv hr
  exact ⟨hspared.trans hv,hr⟩

/-- The small volume with the file `EE`, whose chain takes all clusters. The file fills it, or has one byte less. -/
def packedTree (short : Bool) : ℕ → Sector
  | 1 => fun k => if k.val < 4 ∨ 510 ≤ k.val then 0xFF
      else if k.val % 2 = 0 then UInt8.ofNat (k.val / 2 + 1) else 0
  | 2 => Sector.ofBytes ((entryBytes [0x45,0x45] 0x20 2 0).take 28 ++
      if short then [0xFF,0xFB,1,0] else [0,0xFC,1,0])
  | _ => Sector.zero

section PackedTree
variable (short : Bool)

theorem packedTree_full : smallFat16.Full (packedTree short) := by
  have h : ∀ short, ∀ c < 256, smallFat16.entry (packedTree short) c ≠ 0 := by decide +kernel
  exact h short

theorem packedTree_chain : smallFat16.Chain (packedTree short) 2 (List.range' 2 254) := by
  have hnext : ∀ short, ∀ c < 253, smallFat16.next (packedTree short) (c+2) = some (c+3) := by decide +kernel
  have hlast : ∀ short, smallFat16.next (packedTree short) 255 = none := by decide +kernel
  have hfrom (n : ℕ) (hn : n < 254) : ChainFrom (smallFat16.next (packedTree short)) (255-n)
      (List.range' (255-n) (n+1)) := by
    induction n with
    | zero => exact .last (hlast short)
    | succ n ih =>
      have hstep := hnext short (252-n) (by omega)
      have htail := ih (by omega)
      rw [show 252-n+2 = 255-(n+1) by omega,show 252-n+3 = 255-n by omega] at hstep
      rw [List.range'_succ,show 255-(n+1)+1 = 255-n by omega]
      exact .cons hstep htail
  refine ⟨hfrom 253 (by decide),fun d hd => ?_⟩
  rw [List.mem_range'_1] at hd
  change 2 ≤ d ∧ d < 256
  omega

theorem packedTree_dir {c : ℕ} {secs : List ℕ} (h : smallFat16.LiveDir (packedTree short) c)
    (hs : smallFat16.DirBlocks (packedTree short) c secs) : c = 1 ∧ live (packedTree short) secs = [(2,0)] := by
  have hroot : smallFat16.DirBlocks (packedTree short) 1 [2] := .fixed rfl
  have hlive : ∀ short, live (packedTree short) [2] = [(2,0)] := by decide +kernel
  have hfile : ∀ short, ((packedTree short 2).dirent 0).isSubdir = false := by decide +kernel
  induction h generalizing secs with
  | root =>
    obtain rfl := hs.unique hroot
    exact ⟨rfl,hlive short⟩
  | @sub c b i secs' parent blocks slot dir ih =>
    rw [(ih blocks).2] at slot
    obtain ⟨rfl,rfl⟩ := Prod.mk.inj (List.mem_singleton.1 slot)
    rw [hfile short] at dir
    exact absurd dir (by decide)

theorem packedTree_slot {b i : ℕ} (h : smallFat16.LiveSlot (packedTree short) b i) : (b,i) = (2,0) := by
  obtain ⟨c,secs,hc,hsecs,hslot⟩ := h
  rw [(packedTree_dir short hc hsecs).2] at hslot
  exact List.mem_singleton.1 hslot

theorem packedTree_entry : ((packedTree short 2).dirent 0).cluster smallFat16 = 2 ∧
    ((packedTree short 2).dirent 0).isSubdir = false ∧
    ((packedTree short 2).dirent 0).size ≤ smallFat16.span (List.range' 2 254) * 512 := by
  have h : ∀ short, ((packedTree short 2).dirent 0).cluster smallFat16 = 2 ∧
      ((packedTree short 2).dirent 0).isSubdir = false ∧ ((packedTree short 2).dirent 0).size ≤ 254 * 512 := by
    decide +kernel
  rw [FatInfo.span,List.length_range']
  exact h short

theorem packedTree_consistent : smallFat16.Consistent (packedTree short) where
  reserved := ⟨packedTree_full short 0 (by decide),packedTree_full short 1 (by decide)⟩
  root := ⟨[2],.fixed rfl⟩
  subdirs b i hslot hdir := by
    obtain ⟨rfl,rfl⟩ := Prod.mk.inj (packedTree_slot short hslot)
    rw [(packedTree_entry short).2.1] at hdir
    exact absurd hdir (by decide)
  files b i hslot _ := by
    obtain ⟨rfl,rfl⟩ := Prod.mk.inj (packedTree_slot short hslot)
    obtain ⟨hcluster,-,hsize⟩ := packedTree_entry short
    refine ⟨List.range' 2 254,.inr ?_,hsize⟩
    rw [hcluster]
    exact ⟨by decide,packedTree_chain short⟩
  apart o o' cs cs' ho ho' hne := by
    have hsome {o : Option (ℕ × ℕ)} {cs : List ℕ} (h : smallFat16.Owner (packedTree short) o cs) :
        o = some (2,0) := by
      cases h with
      | root h => exact absurd (h.inRange _ h.links.head_mem) (by decide)
      | slot hlive h => rw [packedTree_slot short hlive]
    exact absurd ((hsome ho).trans (hsome ho').symm) hne

theorem packedTree_live : smallFat16.LiveSlot (packedTree short) 2 0 := by
  have hlive : ∀ short, (2,0) ∈ live (packedTree short) [2] := by decide +kernel
  exact ⟨1,[2],.root,.fixed rfl,hlive short⟩

theorem packedTree_walk : Walk smallFat16 (packedTree short) (smallFat16.TreeDir (packedTree short)) 1
    [some (twoChars 0x45 0x45).byte] (.entry 1 2 0) := by
  have hfound : ∀ short, searchBlocks (twoChars 0x45 0x45).byte (packedTree short) [2,3] = some (2,0) := by
    decide +kernel
  exact .entry ⟨.root,.fixed rfl⟩ (hfound short)

end PackedTree

theorem packedTree_span {g : FatInfo} (h : g.sectorsPerCluster = 1) : g.span (List.range' 2 254) * 512 = 130048 := by
  rw [FatInfo.span,List.length_range',h]

/-- A byte is put at the end of the shorter file. The chain has no room for another one. -/
theorem fullVolume_spared_short : let E := Env.calm (fun _ => 90) 9000
    ∃ t u, fatOpen E [0x2F,0x45,0x45] oWronly 0 0 (.mounted smallFat16 300 (packedTree true)) = .ok ((0,0),t) ∧
      Steps (InsideStep E 0 (List.range' 2 254)) t [.lseek 0 130047 .set,.write 0 [0x78]] u ∧
      Spared smallFat16 (List.range' 2 254) 2 0 (packedTree true) u.dev.blocks ∧
      (Call.exec E (.write 0 [0x79])).Returns u fun r _ => r.result = -1 := by
  intro E
  have hopen : Prog.test (fatOpen E [0x2F,0x45,0x45] oWronly 0 0) (.mounted smallFat16 300 (packedTree true))
      (fun r t => decide (r = (0,0) ∧ t.fatfs.sectorsPerCluster = 1 ∧ (t.fileNum 0).cursor = 0) &&
        Prog.test (Call.exec E (.lseek 0 130047 .set)) t fun _ v => !(v.fileNum 0).flags.append &&
          Prog.test (Call.exec E (.write 0 [0x78])) v fun _ u => decide ((u.fileNum 0).flags.append = false ∧
            (u.fileNum 0).offset = 130048)) = true := by
    decide +kernel
  obtain ⟨r,t,hopen,hrest⟩ := ok_of_test hopen
  rw [Bool.and_eq_true,decide_eq_true_iff] at hrest
  obtain ⟨⟨rfl,hspc,hcursor⟩,hseek⟩ := hrest
  obtain ⟨r₁,v,hseek,hrest⟩ := ok_of_test hseek
  rw [Bool.and_eq_true,Bool.not_eq_true'] at hrest
  obtain ⟨happend,hwrite⟩ := hrest
  obtain ⟨r₂,u,hwrite,hrest⟩ := ok_of_test hwrite
  obtain ⟨happend',hoffset⟩ := of_decide_eq_true hrest
  have hseekInside : (Call.lseek 0 130047 .set).Inside 0 (List.range' 2 254) t := by
    refine ⟨rfl,fun _ => ⟨?_,fun hbehind => ?_⟩⟩
    · rw [packedTree_span hspc,FileS.target]
      decide
    · exact absurd (hcursor.symm.trans hbehind.1) (by decide)
  have hwriteInside {w : FatState} (h : (w.fileNum 0).flags.append = false) (c : UInt8) :
      (Call.write 0 [c]).Inside 0 (List.range' 2 254) w :=
    ⟨rfl,fun _ h' => absurd (h.symm.trans h') (by decide)⟩
  have hrun : Steps (InsideStep E 0 (List.range' 2 254)) t [.lseek 0 130047 .set,.write 0 [0x78]] u :=
    .cons ⟨hseekInside,r₁,hseek⟩ (.cons ⟨hwriteInside happend _,r₂,hwrite⟩ (.nil u))
  obtain ⟨hcluster,hfile,-⟩ := packedTree_entry true
  have h := @fullVolume_spared E (env_calm_noFault _ _) [0x2F,0x45,0x45] [some (twoChars 0x45 0x45)] oWronly 0 0 0
    (.mounted smallFat16 300 (packedTree true)) t u 0 1 2 0 (List.range' 2 254) _ smallFat16_valid (by decide)
    (packedTree_consistent true) (packedTree_full true) (by decide) (.cons (twoChars_converts (by decide +kernel)) .nil)
    (packedTree_walk true) (packedTree_live true) hfile (hcluster ▸ packedTree_chain true) (.inl rfl) rfl hopen hrun
  refine ⟨t,u,hopen,hrun,h.1,(h.2 _ (hwriteInside happend' 0x79)).mono fun r w hw => hw.2 ?_⟩
  rw [Call.Outgrows,packedTree_span rfl,happend',hoffset,if_neg (by decide)]
  decide

/-- On the longer one, an append of a byte reports success. -/
theorem fullVolume_append : let E := Env.calm (fun _ => 90) 9000
    smallFat16.Consistent (packedTree false) ∧ smallFat16.Full (packedTree false) ∧
      smallFat16.LiveSlot (packedTree false) 2 0 ∧ smallFat16.Chain (packedTree false) 2 (List.range' 2 254) ∧
      ∃ t r u, fatOpen E [0x2F,0x45,0x45] { oWronly with append := true } 0 0
          (.mounted smallFat16 300 (packedTree false)) = .ok ((0,0),t) ∧
        (t.fileNum 0).fullFirstCluster = 2 ∧ Call.exec E (.write 0 [0x78]) t = .ok (r,u) ∧
        (Call.write 0 [0x78]).Outgrows smallFat16 (List.range' 2 254) (t.fileNum 0) ∧ r.result = 1 := by
  intro E
  refine ⟨packedTree_consistent false,packedTree_full false,packedTree_live false,packedTree_chain false,?_⟩
  have hopen : Prog.test (fatOpen E [0x2F,0x45,0x45] { oWronly with append := true } 0 0)
      (.mounted smallFat16 300 (packedTree false)) (fun r t => decide (r = (0,0) ∧
        (t.fileNum 0).fullFirstCluster = 2 ∧ (t.fileNum 0).flags.append = true ∧ (t.fileNum 0).size = 130048) &&
          Prog.test (Call.exec E (.write 0 [0x78])) t fun r _ => decide (r.result = 1)) = true := by
    decide +kernel
  obtain ⟨r,t,hopen,hrest⟩ := ok_of_test hopen
  rw [Bool.and_eq_true,decide_eq_true_iff] at hrest
  obtain ⟨⟨rfl,hfirst,happend,hsize⟩,hwrite⟩ := hrest
  obtain ⟨r,u,hwrite,hresult⟩ := ok_of_test hwrite
  refine ⟨t,r,u,hopen,hfirst,hwrite,?_,of_decide_eq_true hresult⟩
  rw [Call.Outgrows,packedTree_span rfl,if_pos happend,hsize]
  decide

end Gristle
