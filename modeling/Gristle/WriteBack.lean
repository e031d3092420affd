import Gristle.Direct
import Gristle.Lib.Overwrite

/-! Writing to a file of direct blocks. A write that stays inside the sector it begins in, and whose
sector is marked for writing back, is not lost when the file is closed. -/
namespace Gristle
open Prog

/-! ### What a file is for -/

/-- One call on an open file. -/
inductive FileOp
  | write (bytes : List UInt8)
  | seek (ptr : ℤ) (dir : Whence)

/-- The bytes of a file and the position in it. -/
structure ByteFile where
  content : List UInt8
  pos : ℕ
  deriving DecidableEq

namespace Ext2Context

/-- Where a seek from `pos` to `t` ends in a file of `size` bytes: a target behind the end or behind
the direct blocks is refused. -/
def seekTo (c : Ext2Context) (size pos t : ℕ) : ℕ :=
  if t ≤ size ∧ t < 12 * c.sectors * 512 then t else pos

end Ext2Context

namespace ByteFile

/-- The position a seek asks for. -/
def target (F : ByteFile) (ptr : ℤ) : Whence → ℕ
  | .set => u32OfInt ptr
  | .cur => u32OfInt (F.pos + ptr)
  | .end_ => u32OfInt (F.content.length + ptr)

/-- What a call does to the bytes and the position. -/
def step (F : ByteFile) (c : Ext2Context) (append : Bool) : FileOp → ByteFile
  | .write bytes =>
    let start := if append then c.seekTo F.content.length F.pos F.content.length else F.pos
    ⟨overwrite F.content start bytes,start + bytes.length⟩
  | .seek ptr dir => ⟨F.content,c.seekTo F.content.length F.pos (F.target ptr dir)⟩

end ByteFile

/-! ### The file on the volume -/

namespace Ext2Context

/-- Inode `n` is a file of `nb` direct blocks, which belong to no other block of the file and hold
neither its inode nor the descriptor of its block group. -/
structure Owned (c : Ext2Context) (B : ℕ → Sector) (n : ℤ) (nb N : ℕ) : Prop where
  wellFormed : c.WellFormed
  holds : c.Holds B n N
  direct : c.Direct (c.inodeAt B n).iBlock nb N
  size : (c.inodeAt B n).iSize ≤ nb * c.sectors * 512
  distinct : ∀ i < nb, ∀ j < nb, (c.inodeAt B n).iBlock i = (c.inodeAt B n).iBlock j → i = j
  inode_apart : ∀ k < nb * c.sectors, c.dataSector (c.inodeAt B n).iBlock k ≠ c.inodeSector B n
  group_apart : ∀ k < nb * c.sectors, c.dataSector (c.inodeAt B n).iBlock k ≠ c.groupSector n

/-- The media agree outside the blocks of the file and its inode. -/
structure Elsewhere (c : Ext2Context) (B : ℕ → Sector) (n : ℤ) (nb : ℕ) (B' : ℕ → Sector) : Prop where
  other : ∀ b, b ≠ c.inodeSector B n → (∀ k < nb * c.sectors, c.dataSector (c.inodeAt B n).iBlock k ≠ b) →
    B' b = B b
  beside : ∀ i, i < c.inodeOffset n ∨ c.inodeOffset n + Inode.length ≤ i →
    (B' (c.inodeSector B n)).get i = (B (c.inodeSector B n)).get i

variable {c : Ext2Context} {B : ℕ → Sector} {n : ℤ} {nb N : ℕ}

theorem dataSector_inj {K : ℕ → ℕ} (hK : ∀ i < nb, ∀ j < nb, K i = K j → i = j) {k k' : ℕ}
    (hk : k < nb * c.sectors) (hk' : k' < nb * c.sectors) (h : c.dataSector K k = c.dataSector K k') :
    k = k' := by
  have hmod := Nat.mod_lt k c.sectors_pos
  have hmod' := Nat.mod_lt k' c.sectors_pos
  have hsum : K (k / c.sectors) * c.sectors + k % c.sectors =
      K (k' / c.sectors) * c.sectors + k' % c.sectors := by
    unfold dataSector at h
    omega
  have hdiv := congrArg (· / c.sectors) hsum
  simp only [Nat.mul_comm _ c.sectors,Nat.mul_add_div c.sectors_pos,Nat.div_eq_of_lt hmod,
    Nat.div_eq_of_lt hmod',Nat.add_zero] at hdiv
  rw [hdiv] at hsum
  have hblock := hK _ (block_lt hk) _ (block_lt hk') hdiv
  rw [← Nat.div_add_mod k c.sectors,← Nat.div_add_mod k' c.sectors,hblock]
  omega

/-- The inode is the same on media that agree on its two sectors. -/
theorem inodeAt_congr {B' : ℕ → Sector} (hg : B' (c.groupSector n) = B (c.groupSector n))
    (hi : B' (c.inodeSector B n) = B (c.inodeSector B n)) : c.inodeAt B' n = c.inodeAt B n := by
  rw [inodeAt,inodeSector_congr hg,hi]
  rfl

end Ext2Context

namespace FileEnt

/-- The medium with the buffer written back to its sector. -/
def overlay (f : FileEnt) (B : ℕ → Sector) : ℕ → Sector := Function.update B f.sector f.buffer

/-- `ext2_write` of one byte, without the step to the next sector. -/
def putByte (f : FileEnt) (b : UInt8) : FileEnt :=
  let g := if Ext2.position f = f.inode.iSize then
      { f with inode := f.inode.setSize (u32 (f.inode.iSize + 1)), flags.dirty := true }
    else f
  { g with buffer := g.buffer.set g.cursor b, cursor := g.cursor + 1 }

/-- `f` is a file with the block list `K` that holds the bytes `content`, the current sector as the
buffer has it; the position is `pos`. -/
structure Fills (c : Ext2Context) (K : ℕ → ℕ) (nb : ℕ) (content : List UInt8) (pos : ℕ)
    (B : ℕ → Sector) (f : FileEnt) : Prop where
  blocks : ∀ j < 12, f.inode.iBlock j = K j
  length : f.inode.iSize = content.length
  room : content.length ≤ nb * c.sectors * 512
  position : f.fileSector * 512 + f.cursor = pos
  inside : pos ≤ content.length
  standing : f.fileSector < nb * c.sectors
  sector : f.sector = c.dataSector K f.fileSector
  content : c.fileContent (f.overlay B) K content.length = content

/-- One byte inside the current sector. -/
theorem Fills.putByte {c : Ext2Context} {K : ℕ → ℕ} {nb N pos : ℕ} {content : List UInt8}
    {B : ℕ → Sector} {f : FileEnt} (hc : c.WellFormed) (hd : c.Direct K nb N)
    (hK : ∀ i < nb, ∀ j < nb, K i = K j → i = j) (h : f.Fills c K nb content pos B)
    (hcursor : f.cursor < 512) (b : UInt8) :
    (f.putByte b).Fills c K nb (overwrite content pos [b]) (pos + 1) B ∧
      (f.putByte b).flags = { f.flags with dirty := f.flags.dirty || decide (pos = content.length) } := by
  have hcap := hc.capacity hd
  have hposition := h.position
  have hinside := h.inside
  have hstanding := h.standing
  have hroom := h.room
  have hpos : Ext2.position f = pos := by
    have hlt : f.fileSector * 512 + f.cursor < 2^32 := by
      rw [hposition]
      omega
    rw [position_eq hlt,hposition]
  have hlength : (overwrite content pos [b]).length = if pos = content.length then content.length + 1
      else content.length := by
    rw [length_overwrite hinside,List.length_singleton]
    split <;> omega
  have hput : f.putByte b = { f with
      inode := if pos = content.length then f.inode.setSize (content.length + 1) else f.inode
      flags.dirty := f.flags.dirty || decide (pos = content.length)
      buffer := f.buffer.set f.cursor b
      cursor := f.cursor + 1 } := by
    rw [FileEnt.putByte,hpos,h.length]
    by_cases he : pos = content.length
    · simp [he,u32_of_lt (show content.length + 1 < 2^32 by omega)]
    · simp [he]
  rw [hput]
  refine ⟨⟨fun j hj => ?_,?_,?_,?_,?_,hstanding,h.sector,?_⟩,rfl⟩
  · change (if pos = content.length then f.inode.setSize (content.length + 1) else f.inode).iBlock j = K j
    split
    · exact (Inode.iBlock_setSize _ _ _).trans (h.blocks j hj)
    · exact h.blocks j hj
  · change (if pos = content.length then f.inode.setSize (content.length + 1) else f.inode).iSize = _
    rw [hlength]
    split
    · rw [Inode.iSize_setSize,u32_of_lt (by omega)]
    · exact h.length
  · rw [hlength]
    split <;> omega
  · change f.fileSector * 512 + (f.cursor + 1) = pos + 1
    omega
  · rw [hlength]
    split <;> omega
  · rw [hlength]
    have hold := h.content
    have hnew := map_range_eq_overwrite (u := c.byteAt (f.overlay B) K)
      (v := c.byteAt (Function.update B f.sector (f.buffer.set f.cursor b)) K) (y := b) hinside ?_ ?_
    · rw [Ext2Context.fileContent] at hold
      rw [hold] at hnew
      exact hnew
    · have hdiv : pos / 512 = f.fileSector := by omega
      have hmod : pos % 512 = f.cursor := by omega
      rw [Ext2Context.byteAt,hdiv,hmod,h.sector,Function.update_self,Sector.get_set]
      simp [hcursor]
    · intro i hi hne
      have hk : i / 512 < nb * c.sectors := by omega
      rw [Ext2Context.byteAt,Ext2Context.byteAt,overlay]
      by_cases he : i / 512 = f.fileSector
      · rw [he,h.sector,Function.update_self,Function.update_self,Sector.get_set,if_neg (by omega)]
      · have hs : c.dataSector K (i / 512) ≠ f.sector := by
          rw [h.sector]
          exact fun h => he (Ext2Context.dataSector_inj hK hk hstanding h)
        rw [Function.update_of_ne hs,Function.update_of_ne hs]

/-- `f` writes to inode `n` of a volume that was `B₀` when it was opened, a file of `nb` direct blocks.
On the medium `B`, with the buffer over it while it is marked, the file holds the bytes `content`. -/
structure Writes (c : Ext2Context) (B₀ : ℕ → Sector) (n : ℤ) (nb : ℕ) (content : List UInt8) (pos : ℕ)
    (B : ℕ → Sector) (f : FileEnt) : Prop where
  number : f.inodeNumber = n
  writable : f.flags.write = true
  blocks : ∀ j < 12, f.inode.iBlock j = (c.inodeAt B₀ n).iBlock j
  length : f.inode.iSize = content.length
  room : content.length ≤ nb * c.sectors * 512
  position : f.fileSector * 512 + f.cursor = pos
  cursor : f.cursor < 512
  inside : pos ≤ content.length
  sector : f.fileSector < nb * c.sectors → f.sector = c.dataSector (c.inodeAt B₀ n).iBlock f.fileSector
  content : c.fileContent (if f.flags.dirty then f.overlay B else B) (c.inodeAt B₀ n).iBlock
    content.length = content
  dirty : f.flags.dirty = true → f.fileSector < nb * c.sectors
  clean : f.flags.dirty = false → f.fileSector < nb * c.sectors → f.buffer = B f.sector
  stored : f.flags.fsDirty = false → (c.inodeAt B₀ n).SameRecord f.inode
  other : ∀ b, (∀ k < nb * c.sectors, c.dataSector (c.inodeAt B₀ n).iBlock k ≠ b) → B b = B₀ b

variable {c : Ext2Context} {B₀ B : ℕ → Sector} {n : ℤ} {nb pos t : ℕ} {content : List UInt8}
  {f g : FileEnt}

theorem Writes.fills (h : f.Writes c B₀ n nb content pos B) (hin : f.fileSector < nb * c.sectors) :
    f.Fills c (c.inodeAt B₀ n).iBlock nb content pos B := by
  refine ⟨h.blocks,h.length,h.room,h.position,h.inside,hin,h.sector hin,?_⟩
  have hcontent := h.content
  cases hdirty : f.flags.dirty with
  | true =>
    rw [hdirty,if_pos rfl] at hcontent
    exact hcontent
  | false =>
    rw [hdirty,if_neg (by decide)] at hcontent
    rw [overlay,h.clean hdirty hin,Function.update_eq_self]
    exact hcontent

/-- Another place in a file whose data is on the medium. -/
theorem Writes.move (h : f.Writes c B₀ n nb content pos B) (hclean : f.flags.dirty = false)
    (hg : g.inode = f.inode ∧ g.flags = f.flags ∧ g.inodeNumber = f.inodeNumber)
    (ht : t ≤ content.length) (hplace : g.fileSector = t / 512 ∧ g.cursor = t % 512)
    (hsector : t / 512 < nb * c.sectors → g.sector = c.dataSector (c.inodeAt B₀ n).iBlock (t / 512) ∧
      g.buffer = B g.sector) : g.Writes c B₀ n nb content t B := by
  obtain ⟨hinode,hflags,hnumber⟩ := hg
  obtain ⟨hfs,hcursor⟩ := hplace
  have hcontent := h.content
  rw [hclean,if_neg (by decide)] at hcontent
  constructor
  · rw [hnumber,h.number]
  · rw [hflags,h.writable]
  · rw [hinode]
    exact h.blocks
  · rw [hinode,h.length]
  · exact h.room
  · rw [hfs,hcursor]
    omega
  · omega
  · exact ht
  · rw [hfs]
    exact fun hin => (hsector hin).1
  · rw [hflags,hclean,if_neg (by decide)]
    exact hcontent
  · rw [hflags,hclean]
    simp
  · rw [hfs]
    exact fun _ hin => (hsector hin).2
  · rw [hflags,hinode]
    exact h.stored
  · exact h.other

end FileEnt

/-! ### Flushing and seeking -/

namespace Ext2
variable {c : Ext2Context} {B₀ B : ℕ → Sector} {n : ℤ} {N nb fe pos : ℕ} {content : List UInt8}
  {f : FileEnt} {s : Ext2State}

section NoFault
variable {E : Env} (hE : E.NoFault) (ho : c.Owned B₀ n nb N)
include hE ho

/-- `ext2_flush` writes the buffer back; what the file holds is the same. -/
theorem flush_at (h : At c N fe B f s) (hw : f.Writes c B₀ n nb content pos B) :
    (flush E fe).Returns s fun r t => r = 0 ∧ ∃ B', At c N fe B' { f with flags.dirty := false } t ∧
      FileEnt.Writes c B₀ n nb content pos B' { f with flags.dirty := false } := by
  refine returns_file h (returns_ite (fun hdirty => ?_) fun hclean => returns_pure ⟨rfl,B,?_⟩)
  · have hin := hw.dirty hdirty
    have hsector := hw.sector hin
    have hcontent := hw.content
    rw [hdirty,if_pos rfl] at hcontent
    refine returns_ite (fun hzero => ?_) fun _ => ?_
    · have := ho.direct.dataSector_pos hin
      omega
    have hlt : f.sector < N := hsector ▸ ho.direct.dataSector_lt hin
    refine (writeBlock_at hE h hlt _ _).bind fun failed t ht => ?_
    obtain ⟨rfl,hat,-⟩ := ht
    refine (updateFile_at hat _).bind fun _ u hu => returns_pure ⟨rfl,_,hu,?_⟩
    exact {
      number := hw.number
      writable := hw.writable
      blocks := hw.blocks
      length := hw.length
      room := hw.room
      position := hw.position
      cursor := hw.cursor
      inside := hw.inside
      sector := hw.sector
      content := hcontent
      dirty := fun h => by simp at h
      clean := fun _ _ => (Function.update_self f.sector f.buffer B).symm
      stored := hw.stored
      other := fun b hb => by
        rw [Function.update_of_ne (hsector ▸ (hb _ hin).symm)]
        exact hw.other b hb }
  · have hsame : { f with flags.dirty := false } = f := by
      have hclean : f.flags.dirty = false := by simpa using hclean
      rw [← hclean]
    rw [hsame]
    exact ⟨h,hw⟩

/-- A seek moves to its target or stays; what the file holds is the same. -/
theorem lseek_at (ptr : ℤ) (dir : Whence) (h : At c N fe B f s) (hw : f.Writes c B₀ n nb content pos B) :
    (lseek E (some fe) ptr dir).Returns s fun p t => ∃ B' g, At c N fe B' g t ∧
      g.Writes c B₀ n nb content (c.seekTo content.length pos (ByteFile.target ⟨content,pos⟩ ptr dir)) B' ∧
      g.flags.append = f.flags.append ∧
      (ByteFile.target ⟨content,pos⟩ ptr dir ≤ content.length →
        ByteFile.target ⟨content,pos⟩ ptr dir < nb * c.sectors * 512 →
        p.1 = i32 (ByteFile.target ⟨content,pos⟩ ptr dir)) := by
  have hcap := ho.wellFormed.capacity ho.direct
  have hcount : nb * c.sectors ≤ 12 * c.sectors := Nat.mul_le_mul_right _ ho.direct.count
  have hposition := hw.position
  have hroom := hw.room
  have hinside := hw.inside
  have hcursor := hw.cursor
  have hpos : position f = pos := by
    have hlt : f.fileSector * 512 + f.cursor < 2^32 := by
      rw [hposition]
      omega
    rw [FileEnt.position_eq hlt,hposition]
  have htarget : target f ptr dir = ByteFile.target ⟨content,pos⟩ ptr dir := by
    cases dir with
    | set => rfl
    | cur =>
      change u32OfInt ((f.fileSector : ℤ) * 512 + f.cursor + ptr) = u32OfInt (pos + ptr)
      rw [← hposition]
      push_cast
      rfl
    | end_ =>
      change u32OfInt (f.inode.iSize + ptr) = u32OfInt (content.length + ptr)
      rw [hw.length]
  generalize ByteFile.target ⟨content,pos⟩ ptr dir = T at htarget ⊢
  have hpsector : pos / 512 = f.fileSector := by omega
  have hspos := c.sectors_pos
  refine returns_file h ?_
  change Returns (if position f = target f ptr dir then _ else _) s _
  rw [hpos,htarget,hw.length]
  -- the position asked for is the current one
  refine returns_ite (fun he => returns_pure ⟨B,f,h,?_,rfl,fun _ _ => by rw [he]⟩) fun hne => ?_
  · rwa [Ext2Context.seekTo,← he,ite_self]
  refine returns_ite (fun hlt => returns_pure ⟨B,f,h,?_,rfl,fun hle => absurd hle (not_le.2 hlt)⟩) fun hle => ?_
  · rwa [Ext2Context.seekTo,if_neg (by omega)]
  have hle : T ≤ content.length := not_lt.1 hle
  -- another byte of the current sector
  refine returns_ite (fun hsame => ?_) fun hother => ?_
  · have hsame : pos / 512 = T / 512 := hsame
    refine (updateFile_at h _).bind fun _ t ht => returns_pure ⟨B,_,ht,?_,rfl,fun _ _ => rfl⟩
    have hlim : T < 12 * c.sectors * 512 := by omega
    rw [Ext2Context.seekTo,if_pos ⟨hle,hlim⟩]
    exact {
      number := hw.number
      writable := hw.writable
      blocks := hw.blocks
      length := hw.length
      room := hw.room
      position := by
        change f.fileSector * 512 + T % 512 = T
        omega
      cursor := Nat.mod_lt _ (by decide)
      inside := hle
      sector := hw.sector
      content := hw.content
      dirty := hw.dirty
      clean := hw.clean
      stored := hw.stored
      other := hw.other }
  obtain ⟨b,hb⟩ := h.context
  refine returns_context hb ?_
  rw [logPlus_eq ho.wellFormed (by decide),logPlus_eq ho.wellFormed (by decide)]
  have hlog := ho.wellFormed.log
  refine returns_oneShl (by omega) ?_
  rw [c.two_pow_log]
  have hTblock : T / (512 * c.sectors) = T / 512 / c.sectors := (Nat.div_div_eq_div_mul _ _ _).symm
  have hPblock : pos / (512 * c.sectors) = pos / 512 / c.sectors := (Nat.div_div_eq_div_mul _ _ _).symm
  rw [hTblock,hPblock]
  have hT := Nat.mod_add_div (T / 512) c.sectors
  have hP := Nat.mod_add_div (pos / 512) c.sectors
  -- the two ways to move differ in how they find the sector
  refine returns_ite (fun hblock => ?_) fun hblock => ?_
  · have hin : pos / 512 < nb * c.sectors := by
      by_contra hend
      have hT : T / 512 / c.sectors < nb := Ext2Context.block_lt (by omega)
      have hP : nb ≤ pos / 512 / c.sectors := (Nat.le_div_iff_mul_le hspos).2 (by omega)
      omega
    have hTin : T / 512 < nb * c.sectors := by
      rw [← Nat.div_lt_iff_lt_mul hspos,hblock]
      exact Ext2Context.block_lt hin
    have hlt := ho.direct.dataSector_lt hTin
    have hsector : u32 (f.sector + T / 512 + 2^32 - pos / 512) =
        c.dataSector (c.inodeAt B₀ n).iBlock (T / 512) := by
      rw [hw.sector (hpsector ▸ hin),← hpsector]
      exact ho.direct.hop hblock hTin
    refine (flush_at hE ho h hw).bind fun _ t ht => ?_
    obtain ⟨-,B',ht,hw'⟩ := ht
    refine (updateFile_at ht _).bind fun _ u hu => returns_file hu ?_
    refine (readBuffer_at hE hu (hsector ▸ hlt)).bind fun failed v hv => ?_
    obtain ⟨rfl,hv⟩ := hv
    refine returns_pure ⟨B',_,hv,?_,rfl,fun _ _ => rfl⟩
    rw [Ext2Context.seekTo,if_pos ⟨hle,by omega⟩]
    exact hw'.move rfl ⟨rfl,rfl,rfl⟩ hle ⟨rfl,rfl⟩ fun _ => ⟨hsector,rfl⟩
  · refine (flush_at hE ho h hw).bind fun _ t ht => ?_
    obtain ⟨-,B',ht,hw'⟩ := ht
    refine returns_ite (fun hfar => returns_pure ⟨B',_,ht,?_,rfl,fun _ hin => ?_⟩) fun hnear => ?_
    · have hfar : 12 * c.sectors ≤ T / 512 := (Nat.le_div_iff_mul_le hspos).1 hfar
      rwa [Ext2Context.seekTo,if_neg (by omega)]
    · have hfar : 12 * c.sectors ≤ T / 512 := (Nat.le_div_iff_mul_le hspos).1 hfar
      omega
    have hlim : T / 512 < 12 * c.sectors := (Nat.div_lt_iff_lt_mul hspos).1 (by omega)
    refine returns_oneShl (by omega) ?_
    rw [Ext2Context.sector_in_block]
    refine (updateFile_at ht _).bind fun _ u hu => returns_file hu ?_
    rw [Ext2Context.seekTo,if_pos ⟨hle,by omega⟩]
    by_cases hin : T / 512 < nb * c.sectors
    · have hlt := ho.direct.dataSector_lt hin
      have hdev := ho.direct.device
      have hsector : u32 (f.inode.iBlock (T / 512 / c.sectors) * c.sectors + c.partStart +
          T / 512 % c.sectors) = c.dataSector (c.inodeAt B₀ n).iBlock (T / 512) := by
        rw [hw.blocks _ (by omega)]
        exact u32_of_lt (lt_of_lt_of_le hlt hdev)
      refine (readBuffer_at hE hu (show u32 _ < N from hsector ▸ hlt)).bind fun failed v hv => ?_
      obtain ⟨rfl,hv⟩ := hv
      exact returns_pure ⟨B',_,hv,hw'.move rfl ⟨rfl,rfl,rfl⟩ hle ⟨rfl,rfl⟩ fun _ => ⟨hsector,rfl⟩,rfl,
        fun _ _ => rfl⟩
    · refine (readBuffer_total E hu _).bind fun failed v hv => ?_
      obtain ⟨d,hv⟩ := hv
      have hmoved := hw'.move (g := { f with
          flags.dirty := false
          blockIndex := T / 512 / c.sectors
          fileSector := T / 512
          cursor := T % 512
          sector := u32 (f.inode.iBlock (T / 512 / c.sectors) * c.sectors + c.partStart +
            T / 512 % c.sectors)
          sectorsLeft := u32 (c.sectors + 2^32 - T / 512 % c.sectors - 1)
          buffer := d }) rfl ⟨rfl,rfl,rfl⟩ hle ⟨rfl,rfl⟩ fun h => absurd h hin
      exact returns_ite (fun _ => returns_pure ⟨B',_,hv,hmoved,rfl,fun _ h => absurd h (by omega)⟩)
        fun _ => returns_pure ⟨B',_,hv,hmoved,rfl,fun _ h => absurd h (by omega)⟩

end NoFault

/-! ### Writing -/

/-- Inside one sector the loop of `ext2_write` stores its bytes in the buffer, which is marked when the
file grows. -/
theorem writeLoop_at {K : ℕ → ℕ} (E : Env) (hc : c.WellFormed) (hd : c.Direct K nb N)
    (hK : ∀ i < nb, ∀ j < nb, K i = K j → i = j) (bytes : List UInt8) (h : At c N fe B f s)
    (hf : f.Fills c K nb content pos B) (hcursor : f.cursor + bytes.length < 512) :
    (writeLoop E fe bytes).Returns s fun full t => full = false ∧ ∃ g, At c N fe B g t ∧
      g.Fills c K nb (overwrite content pos bytes) (pos + bytes.length) B ∧ g.cursor < 512 ∧
      g.inodeNumber = f.inodeNumber ∧ g.flags = { f.flags with
        dirty := f.flags.dirty || decide (content.length < pos + bytes.length) } := by
  induction bytes generalizing s f content pos with
  | nil =>
    refine returns_pure ⟨rfl,f,h,?_,hcursor,rfl,?_⟩
    · rwa [overwrite_nil]
    · have hinside := hf.inside
      rw [decide_eq_false (by simpa using hinside),Bool.or_false]
  | cons b bytes ih =>
    rw [List.length_cons] at hcursor
    obtain ⟨hput,hflags⟩ := hf.putByte hc hd hK (by omega) b
    have hnumber : (f.putByte b).inodeNumber = f.inodeNumber ∧ (f.putByte b).cursor = f.cursor + 1 := by
      unfold FileEnt.putByte
      split <;> exact ⟨rfl,rfl⟩
    refine returns_file h (returns_ite (fun hle => ?_) fun _ => ?_)
    · have hle : 512 ≤ f.cursor := hle
      omega
    refine (updateFile_at h _).bind fun _ t ht => (updateFile_at ht _).bind fun _ u hu => ?_
    have hat : At c N fe B (f.putByte b) u := hu
    rw [if_neg (by change f.cursor + 1 ≠ 512; omega),Prog.pure_bind,if_neg (by decide)]
    refine (ih hat hput (by rw [hnumber.2]; omega)).mono fun full v hv => ?_
    obtain ⟨hfull,g,hg,hfills,hcursor,hnum,hgflags⟩ := hv
    rw [overwrite_cons hf.inside,Nat.add_right_comm,Nat.add_assoc] at hfills
    refine ⟨hfull,g,hg,hfills,hcursor,hnum.trans hnumber.1,?_⟩
    have hlength := length_overwrite hf.inside [b]
    rw [List.length_singleton] at hlength
    have hinside := hf.inside
    have hmark : decide (pos = content.length ∨ max content.length (pos+1) < pos + 1 + bytes.length) =
        decide (content.length < pos + (bytes.length + 1)) := decide_eq_decide.2 (by omega)
    rw [hgflags,hflags,hlength,List.length_cons,Bool.or_assoc,← Bool.decide_or,hmark]

end Ext2

/-- The byte a write begins at. -/
def FileEnt.start (f : FileEnt) : ℕ := if f.flags.append then f.inode.iSize else Ext2.position f

/-- The call needs no block behind the first `nb`. -/
def FileEnt.Fits (c : Ext2Context) (nb : ℕ) (f : FileEnt) : FileOp → Prop
  | .write bytes => bytes = [] ∨ f.start + bytes.length ≤ nb * c.sectors * 512
  | .seek _ _ => True

/-- A write ends before the end of the sector it begins in, and either the file grows or the sector is
marked for writing back already. -/
def FileEnt.Careful (f : FileEnt) : FileOp → Prop
  | .write bytes => bytes = [] ∨ f.start % 512 + bytes.length < 512 ∧
      (f.flags.dirty = true ∨ f.inode.iSize < f.start + bytes.length)
  | .seek _ _ => True

namespace Ext2

/-- One call on the file. -/
def call (E : Env) (fe : ℕ) (e : ℤ) : FileOp → Ext2M (ℤ × ℤ)
  | .write bytes => write E (some fe) bytes e
  | .seek ptr dir => lseek E (some fe) ptr dir

/-- Calls on the file, one after the other. -/
def calls (E : Env) (fe : ℕ) (e : ℤ) : List FileOp → Ext2M Unit
  | [] => pure ()
  | op :: ops => do
    let _ ← call E fe e op
    calls E fe e ops

/-- Before every call of the sequence the file is as `P` says. -/
def Throughout (P : FileEnt → FileOp → Prop) (E : Env) (fe : ℕ) (e : ℤ) : List FileOp → Ext2State → Prop
  | [], _ => True
  | op :: ops, s => (∀ f, s.files fe = some f → P f op) ∧
      ∀ p t, call E fe e op s = .ok (p,t) → Throughout P E fe e ops t

end Ext2

/-- A marked file with a changed inode. -/
theorem FileEnt.Fills.writes {c : Ext2Context} {B₀ B : ℕ → Sector} {n : ℤ} {nb pos : ℕ}
    {content : List UInt8} {f : FileEnt} (h : f.Fills c (c.inodeAt B₀ n).iBlock nb content pos B)
    (hnumber : f.inodeNumber = n) (hcursor : f.cursor < 512)
    (hflags : f.flags.write = true ∧ f.flags.dirty = true ∧ f.flags.fsDirty = true)
    (hother : ∀ b, (∀ k < nb * c.sectors, c.dataSector (c.inodeAt B₀ n).iBlock k ≠ b) → B b = B₀ b) :
    f.Writes c B₀ n nb content pos B := by
  obtain ⟨hwrite,hdirty,hfs⟩ := hflags
  exact {
    number := hnumber
    writable := hwrite
    blocks := h.blocks
    length := h.length
    room := h.room
    position := h.position
    cursor := hcursor
    inside := h.inside
    sector := fun _ => h.sector
    content := by rw [hdirty,if_pos rfl]; exact h.content
    dirty := fun _ => h.standing
    clean := fun hclean => by rw [hdirty] at hclean; cases hclean
    stored := fun hclean => by rw [hfs] at hclean; cases hclean
    other := hother }

namespace Ext2
variable {c : Ext2Context} {B₀ B : ℕ → Sector} {n : ℤ} {N nb fe : ℕ} {F : ByteFile} {f : FileEnt}
  {s : Ext2State}

section NoFault
variable {E : Env} (hE : E.NoFault) (ho : c.Owned B₀ n nb N)
include hE ho

theorem write_at (bytes : List UInt8) (e : ℤ) (h : At c N fe B f s)
    (hw : f.Writes c B₀ n nb F.content F.pos B) (hfits : f.Fits c nb (.write bytes))
    (hcareful : f.Careful (.write bytes)) : (write E (some fe) bytes e).Returns s fun _ t => ∃ B' g,
      At c N fe B' g t ∧ g.flags.append = f.flags.append ∧ g.Writes c B₀ n nb
        (F.step c f.flags.append (.write bytes)).content (F.step c f.flags.append (.write bytes)).pos B' := by
  have hcap := ho.wellFormed.capacity ho.direct
  have hcount : nb * c.sectors ≤ 12 * c.sectors := Nat.mul_le_mul_right _ ho.direct.count
  have hroom := hw.room
  have hposition := hw.position
  have hinside := hw.inside
  have hpos : position f = F.pos := by
    have hlt : f.fileSector * 512 + f.cursor < 2^32 := by
      rw [hposition]
      omega
    rw [FileEnt.position_eq hlt,hposition]
  -- the file stands where the write begins
  set start := if f.flags.append then c.seekTo F.content.length F.pos F.content.length else F.pos with hstart
  have hbegin (hne : bytes ≠ []) : f.start = start ∧ start + bytes.length ≤ nb * c.sectors * 512 ∧
      start % 512 + bytes.length < 512 ∧
      (f.flags.append = false ∧ f.flags.dirty = true ∨ F.content.length < start + bytes.length) := by
    have hlen : 0 < bytes.length := List.length_pos_iff.2 hne
    have hfits := hfits.resolve_left hne
    obtain ⟨hsector,hmark⟩ := hcareful.resolve_left hne
    rw [hw.length] at hmark
    rw [FileEnt.start,hpos,hw.length] at hfits hsector hmark ⊢
    cases happend : f.flags.append with
    | true =>
      rw [happend,if_pos rfl] at hfits hsector
      rw [hstart,happend,if_pos rfl,if_pos rfl,Ext2Context.seekTo,if_pos ⟨le_rfl,by omega⟩]
      exact ⟨rfl,hfits,hsector,.inr (by omega)⟩
    | false =>
      rw [happend,if_neg (by decide)] at hfits hsector hmark
      rw [hstart,happend,if_neg (by decide),if_neg (by decide)]
      exact ⟨rfl,hfits,hsector,hmark.imp_left fun h => ⟨rfl,h⟩⟩
  have hseek : (if f.flags.append then lseek E (some fe) 0 .end_ else pure (0,e)).Returns s fun p t =>
      ∃ B' g, At c N fe B' g t ∧ g.flags.append = f.flags.append ∧
        g.Writes c B₀ n nb F.content start B' ∧ (f.flags.append = false → g.flags = f.flags) ∧
        (bytes ≠ [] → ¬ (f.flags.append = true ∧ p.1 = -1)) := by
    refine returns_ite (fun happend => ?_) fun happend => returns_pure ?_
    · refine (lseek_at hE ho 0 .end_ h hw).mono fun p t ht => ?_
      obtain ⟨B',g,hg,hwrites,hga,hresult⟩ := ht
      have htarget : ByteFile.target ⟨F.content,F.pos⟩ 0 .end_ = F.content.length := by
        change u32OfInt ((F.content.length : ℤ) + 0) = _
        rw [add_zero,u32OfInt_natCast (by omega)]
      rw [htarget] at hwrites hresult
      rw [hstart,if_pos happend]
      refine ⟨B',g,hg,hga,hwrites,fun h => absurd (happend.symm.trans h) (by decide),
        fun hne hr => ?_⟩
      obtain ⟨hs,hroom,-,-⟩ := hbegin hne
      have hlen : 0 < bytes.length := List.length_pos_iff.2 hne
      rw [FileEnt.start,if_pos happend,hw.length] at hs
      have hr := hr.2
      rw [hresult le_rfl (by omega),i32_of_lt (by omega)] at hr
      omega
    · have happend : f.flags.append = false := by simpa using happend
      rw [hstart,happend,if_neg (by decide)]
      exact ⟨B,f,h,happend,hw,fun _ => rfl,fun _ h => by simp at h⟩
  refine returns_file h ?_
  rw [if_neg (by simp [hw.writable])]
  refine hseek.bind fun p t ht => ?_
  obtain ⟨r,e'⟩ := p
  obtain ⟨B',g,hg,hga,hwrites,hgflags,hresult⟩ := ht
  by_cases hne : bytes = []
  · subst hne
    have hdone : g.Writes c B₀ n nb (F.step c f.flags.append (.write [])).content
        (F.step c f.flags.append (.write [])).pos B' := by
      change g.Writes c B₀ n nb (overwrite F.content start []) (start + 0) B'
      rwa [overwrite_nil]
    exact returns_ite (fun _ => returns_pure ⟨B',g,hg,hga,hdone⟩) fun _ =>
      returns_pure ⟨B',g,hg,hga,hdone⟩
  obtain ⟨-,hspace,hsector,hmark⟩ := hbegin hne
  have hlen : 0 < bytes.length := List.length_pos_iff.2 hne
  have hgpos := hwrites.position
  have hgcursor := hwrites.cursor
  refine returns_ite (fun hr => absurd hr (hresult hne)) fun _ => ?_
  refine (writeLoop_at E ho.wellFormed ho.direct ho.distinct bytes hg (hwrites.fills (by omega))
    (by omega)).bind fun full u hu => ?_
  obtain ⟨rfl,g',hg',hfills,hcursor,hnumber,hflags⟩ := hu
  rw [if_neg (by decide),if_pos hlen]
  refine Returns.bind (Q := fun _ v => ∃ now, At c N fe B' { g' with
    inode := g'.inode.setMtime now, flags.fsDirty := true } v) ?_ fun _ v hv => ?_
  · exact (time_at E hg').bind fun now v hv => (updateFile_at hv _).mono fun _ w hw => ⟨now,hw⟩
  obtain ⟨now,hv⟩ := hv
  have hdirty : g'.flags.dirty = true := by
    rw [hflags]
    rcases hmark with ⟨ha,hd⟩ | hgrow
    · change (g.flags.dirty || _) = true
      rw [hgflags ha,hd,Bool.true_or]
    · change (g.flags.dirty || decide _) = true
      rw [decide_eq_true hgrow,Bool.or_true]
  refine returns_pure ⟨B',_,hv,?_,?_⟩
  · change g'.flags.append = _
    rw [hflags,← hga]
  · have hdone : FileEnt.Fills c (c.inodeAt B₀ n).iBlock nb (overwrite F.content start bytes)
        (start + bytes.length) B' { g' with inode := g'.inode.setMtime now, flags.fsDirty := true } :=
      ⟨fun j hj => (Inode.iBlock_setMtime _ _ _).trans (hfills.blocks j hj),
        (Inode.iSize_setMtime _ _).trans hfills.length,hfills.room,hfills.position,hfills.inside,
        hfills.standing,hfills.sector,hfills.content⟩
    refine hdone.writes (hnumber.trans hwrites.number) hcursor ⟨?_,hdirty,rfl⟩ hwrites.other
    change g'.flags.write = true
    rw [hflags]
    exact hwrites.writable

end NoFault

end Ext2

end Gristle
