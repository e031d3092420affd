import Gristle.Ext2Ends
import Gristle.Reopen

/-! The sectors that are written when a file of an ext2 volume is written to: those of its own blocks and
the one with its inode, as long as no write begins behind its blocks or is misled by the countdown of
sectors. -/
namespace Gristle
open Prog

/-! ### Where a file that is written to stands -/

/-- A countdown of sectors that is right at byte `start`, or large enough for `n` bytes that end inside
their block. -/
def Ext2Context.Leads (c : Ext2Context) (left start n : ℕ) : Prop :=
  left = c.sectors - 1 - start / 512 % c.sectors ∨
    (start % 512 + n) / 512 ≤ left ∧ start / 512 % c.sectors + (start % 512 + n) / 512 < c.sectors

/-- The media agree outside the first `nb` blocks of the list. -/
def Ext2Context.Beside (c : Ext2Context) (K : ℕ → ℕ) (nb : ℕ) (B B' : ℕ → Sector) : Prop :=
  ∀ b, (∀ k < nb * c.sectors, c.dataSector K k ≠ b) → B' b = B b

/-- The event of writing a sector of the first `nb` blocks of inode `n`, or the sector that holds the
inode. -/
def Ext2Context.Owns (c : Ext2Context) (B : ℕ → Sector) (n : ℤ) (nb : ℕ) (ev : Event) : Prop :=
  ∃ o b d, ev = .write o b d ∧
    ((∃ k < nb * c.sectors, b = c.dataSector (c.inodeAt B n).iBlock k) ∨ b = c.inodeSector B n)

namespace FileEnt

/-- The file stands at its position, in the first `nb` blocks of the list `K` or right behind them, and
behind its buffer only when it has used up these blocks. -/
structure Lies (c : Ext2Context) (K : ℕ → ℕ) (nb : ℕ) (f : FileEnt) : Prop where
  blocks : ∀ j < 12, f.inode.iBlock j = K j
  size : f.inode.iSize ≤ nb * c.sectors * 512
  within : f.place ≤ f.inode.iSize
  cursor : f.cursor ≤ 512
  full : f.cursor = 512 → f.fileSector + 1 = nb * c.sectors
  sector : f.fileSector < nb * c.sectors → f.sector = c.dataSector K f.fileSector
  block : f.cursor < 512 → f.blockIndex = f.fileSector / c.sectors
  left : f.sectorsLeft < 2^32
  dirty : f.flags.dirty = true → f.fileSector < nb * c.sectors

/-- The same inode is opened in the same way. -/
structure Kin (f g : FileEnt) : Prop where
  number : g.inodeNumber = f.inodeNumber
  write : g.flags.write = f.flags.write
  append : g.flags.append = f.flags.append

theorem Kin.refl (f : FileEnt) : f.Kin f := ⟨rfl,rfl,rfl⟩

theorem Kin.trans {f g h : FileEnt} (hg : f.Kin g) (hh : g.Kin h) : f.Kin h :=
  ⟨hh.number.trans hg.number,hh.write.trans hg.write,hh.append.trans hg.append⟩

/-- The countdown after a seek to byte `T`. -/
def countdown (c : Ext2Context) (f : FileEnt) (T : ℕ) : ℕ :=
  if T / 512 / c.sectors = f.place / 512 / c.sectors then
    u32 (f.sectorsLeft + T / 512 + 2^32 - f.place / 512)
  else c.sectors - 1 - T / 512 % c.sectors

/-- A write of at least one byte begins in the blocks of the file and with a countdown that leads it on, or
it is refused because a seek to the end of twelve blocks is. -/
def Safe (c : Ext2Context) (nb : ℕ) (f : FileEnt) : FileOp → Prop
  | .write bytes => bytes = [] ∨
      f.flags.append = true ∧ 12 * c.sectors * 512 ≤ f.inode.iSize ∧ Ext2.position f < f.inode.iSize ∨
      f.start < nb * c.sectors * 512 ∧ c.Leads (f.countdown c f.start) f.start bytes.length
  | .seek _ _ => True

variable {c : Ext2Context} {K : ℕ → ℕ} {nb : ℕ} {f : FileEnt}

theorem Lies.position (h : f.Lies c K nb) : Ext2.position f = f.place :=
  position_eq (lt_of_le_of_lt h.within f.inode.iSize_lt)

/-- Inside the buffer the position gives the sector and the cursor. -/
theorem place_parts (h : f.cursor < 512) : f.place / 512 = f.fileSector ∧ f.place % 512 = f.cursor := by
  unfold place
  omega

theorem Lies.of_full (h : f.Lies c K nb) (hfull : f.cursor = 512) :
    f.place = nb * c.sectors * 512 ∧ f.inode.iSize = nb * c.sectors * 512 := by
  have hwithin := h.within
  have hsize := h.size
  have hend := h.full hfull
  unfold place at *
  omega

end FileEnt

namespace Ext2
variable {c : Ext2Context} {N nb fe : ℕ} {B B₀ : ℕ → Sector} {K : ℕ → ℕ} {n : ℤ} {f : FileEnt}
  {s t : Ext2State}
  {E : Env}

/-! ### What is written -/

/-- The blocks written in between are all as `P` says. -/
def Wrote (P : Event → Prop) (s t : Ext2State) : Prop :=
  ∃ es, t.dev.writes = es ++ s.dev.writes ∧ ∀ ev ∈ es, P ev

theorem Wrote.mono {P Q : Event → Prop} (h : Wrote P s t) (hPQ : ∀ ev, P ev → Q ev) : Wrote Q s t := by
  obtain ⟨es,hes,hP⟩ := h
  exact ⟨es,hes,fun ev hev => hPQ ev (hP ev hev)⟩

theorem Wrote.trans {P : Event → Prop} {u : Ext2State} (h : Wrote P s t)
    (h' : Wrote P t u) : Wrote P s u := by
  obtain ⟨es,hes,hP⟩ := h
  obtain ⟨es',hes',hP'⟩ := h'
  refine ⟨es' ++ es,by rw [hes',hes,List.append_assoc],fun ev hev => ?_⟩
  exact (List.mem_append.1 hev).elim (hP' ev) (hP ev)

/-- Nothing is written. -/
def SameWrites (s t : Ext2State) : Prop := t.dev.writes = s.dev.writes

instance : Std.Refl SameWrites := ⟨fun _ => rfl⟩
instance : IsTrans Ext2State SameWrites where trans _ _ _ h h' := h'.trans h

theorem SameWrites.wrote {P : Event → Prop} (h : SameWrites s t) : Wrote P s t :=
  ⟨[],h,by simp⟩

section SameWrites
variable (E : Env) (fe : ℕ)

theorem onDevice_sameWrites {α : Type} {x : Prog Device α} (hx : Keeps SameMedium x) :
    Keeps SameWrites (onDevice x) := by
  intro s a t h
  obtain ⟨d,hd,rfl⟩ := zoom_ok h
  exact (hx _ _ _ hd).writes

theorem file_sameWrites : Keeps SameWrites (Ext2.file fe) := by
  intro s f t h
  unfold Ext2.file at h
  split at h
  · cases h
    rfl
  · cases h

theorem context_sameWrites : Keeps SameWrites Ext2.context := by
  intro s c t h
  unfold Ext2.context at h
  split at h
  · cases h
    rfl
  · cases h

theorem updateFile_sameWrites (u : FileEnt → FileEnt) : Keeps SameWrites (updateFile fe u) :=
  keeps_modify fun _ => rfl

theorem readBuffer_sameWrites (b : ℕ) : Keeps SameWrites (readBuffer E fe b) := by
  refine keeps_bind (onDevice_sameWrites (blockRead_sameMedium E b)) fun o => ?_
  cases o with
  | none => exact keeps_pure true
  | some d => exact keeps_bind (updateFile_sameWrites fe _) fun _ => keeps_pure false

theorem oneShl_sameWrites (k : ℕ) : Keeps SameWrites (oneShl k) :=
  keeps_ite (keeps_pure _) (keeps_ite (keeps_stop _) (keeps_stop _))

theorem nextSector_sameWrites : Keeps SameWrites (nextSector E fe) := by
  refine keeps_bind (file_sameWrites fe) fun f => keeps_ite ?_ ?_
  · refine keeps_bind (updateFile_sameWrites fe _) fun _ => keeps_bind (file_sameWrites fe) fun f => ?_
    refine keeps_bind (readBuffer_sameWrites E fe _) fun _ => ?_
    exact keeps_bind (updateFile_sameWrites fe _) fun _ => keeps_pure false
  refine keeps_bind (file_sameWrites fe) fun f => keeps_ite ?_ (keeps_pure true)
  refine keeps_bind (updateFile_sameWrites fe _) fun _ => keeps_bind (file_sameWrites fe) fun f => ?_
  refine keeps_ite (keeps_bind context_sameWrites fun c => ?_) (keeps_pure true)
  refine keeps_bind (oneShl_sameWrites _) fun _ => ?_
  refine keeps_bind (keeps_ite (keeps_pure _) (keeps_stop _)) fun _ => ?_
  exact keeps_bind (updateFile_sameWrites fe _) fun _ => readBuffer_sameWrites E fe _

theorem writeLoop_sameWrites (bytes : List UInt8) : Keeps SameWrites (writeLoop E fe bytes) := by
  induction bytes with
  | nil => exact keeps_pure false
  | cons b bytes ih =>
    refine keeps_bind (file_sameWrites fe) fun f => keeps_ite (keeps_stop _) ?_
    refine keeps_bind (updateFile_sameWrites fe _) fun _ => ?_
    refine keeps_bind (updateFile_sameWrites fe _) fun _ => ?_
    refine keeps_bind (keeps_ite (nextSector_sameWrites E fe) (keeps_pure false)) fun full => ?_
    exact keeps_ite (keeps_pure true) ih

end SameWrites

theorem writeBlock_wrote (E : Env) (o : Origin) (b : ℕ) (data : Sector) :
    (writeBlock E o b data).Every s fun _ t => Wrote (fun ev => ∃ d, ev = .write o b d) s t := by
  intro failed t ht
  unfold writeBlock onDevice at ht
  obtain ⟨d,hd,rfl⟩ := zoom_ok ht
  refine ⟨[.write o b data],?_,fun ev hev => ⟨data,by simpa using hev⟩⟩
  rw [Device.blockWrite] at hd
  dsimp only at hd
  split at hd <;> cases hd <;> rfl

/-- The event of writing back the current sector of a marked file. -/
def Flushes (f : FileEnt) (ev : Event) : Prop :=
  f.flags.dirty = true ∧ ∃ d, ev = .write .ext2Flush f.sector d

theorem flush_wrote (E : Env) (h : s.files fe = some f) :
    (flush E fe).Every s fun _ t => Wrote (Flushes f) s t := by
  have hnone (t : Ext2State) : Wrote (Flushes f) t t := SameWrites.wrote rfl
  refine every_bind_of_ok (show Ext2.file fe s = .ok (f,s) by rw [Ext2.file,h]) ?_
  refine every_ite (fun hdirty => ?_) fun _ => every_pure (hnone s)
  refine every_ite (fun _ => every_pure (hnone s)) fun _ => ?_
  refine (writeBlock_wrote E .ext2Flush f.sector f.buffer).bind fun failed t ht => ?_
  have ht : Wrote (Flushes f) s t := ht.mono fun ev hev => ⟨hdirty,hev⟩
  refine every_ite (fun _ => every_pure ht) fun _ => ?_
  refine Every.bind (Q := fun _ u => Wrote (Flushes f) s u) (fun _ u hu => ?_) fun _ u hu => every_pure hu
  exact ht.trans (updateFile_sameWrites fe _ _ _ _ hu).wrote

/-- A seek writes the sector it leaves, or nothing. -/
theorem lseek_wrote (E : Env) (ptr : ℤ) (dir : Whence) (h : s.files fe = some f) :
    (lseek E (some fe) ptr dir).Every s fun _ t => Wrote (Flushes f) s t := by
  have hquiet {α : Type} {x : Ext2M α} (hx : Keeps SameWrites x) :
      x.Every s fun _ t => Wrote (Flushes f) s t :=
    fun _ _ ht => (hx _ _ _ ht).wrote
  have hflush {α : Type} {x : Ext2M α} (hx : Keeps SameWrites x) :
      (flush E fe >>= fun _ => x).Every s fun _ t => Wrote (Flushes f) s t :=
    (flush_wrote E h).bind fun _ t ht _ u hu => ht.trans (hx _ _ _ hu).wrote
  have hload (x : ℕ) (m : ℤ) : Keeps SameWrites (do
      if ← readBuffer E fe x then pure (ptr - 1,0) else pure (m,0) : Ext2M (ℤ × ℤ)) :=
    keeps_bind (readBuffer_sameWrites E fe x) fun _ => keeps_ite (keeps_pure _) (keeps_pure _)
  refine every_bind_of_ok (show Ext2.file fe s = .ok (f,s) by rw [Ext2.file,h]) ?_
  refine every_ite (fun _ => hquiet (keeps_pure _)) fun _ => ?_
  refine every_ite (fun _ => hquiet (keeps_pure _)) fun _ => ?_
  refine every_ite (fun _ => ?_) fun _ => ?_
  · exact hquiet (keeps_bind (updateFile_sameWrites fe _) fun _ => keeps_pure _)
  have hcontext : Ext2.context.Every s fun _ u => u = s := by
    intro c u hu
    unfold Ext2.context at hu
    split at hu <;> cases hu
    rfl
  have hshift (k : ℕ) : (oneShl k).Every s fun _ u => u = s :=
    every_ite (fun _ => every_pure rfl) fun _ =>
      every_ite (fun _ _ _ h => by cases h) fun _ _ _ h => by cases h
  refine hcontext.bind fun c u hu => ?_
  subst hu
  refine (hshift _).bind fun k v hv => ?_
  subst hv
  refine every_ite (fun _ => hflush ?_) fun _ => hflush ?_
  · exact keeps_bind (updateFile_sameWrites fe _) fun _ =>
      keeps_bind (file_sameWrites fe) fun f => hload _ _
  · refine keeps_ite (keeps_pure _) ?_
    exact keeps_bind (oneShl_sameWrites _) fun _ => keeps_bind (updateFile_sameWrites fe _) fun _ =>
      keeps_bind (file_sameWrites fe) fun f => hload _ _

theorem write_wrote (E : Env) (bytes : List UInt8) (e : ℤ) (h : s.files fe = some f) :
    (write E (some fe) bytes e).Every s fun _ t => Wrote (Flushes f) s t := by
  have hnone : Wrote (Flushes f) s s := SameWrites.wrote rfl
  refine every_bind_of_ok (show Ext2.file fe s = .ok (f,s) by rw [Ext2.file,h]) ?_
  refine every_ite (fun _ => every_pure hnone) fun _ => ?_
  have hseek : (if f.flags.append then lseek E (some fe) 0 .end_ else pure (0,e)).Every s fun _ t =>
      Wrote (Flushes f) s t := every_ite (fun _ => lseek_wrote E 0 .end_ h) fun _ => every_pure hnone
  refine hseek.bind fun p t ht => every_ite (fun _ => every_pure ht) fun _ => ?_
  intro q u hu
  refine ht.trans (SameWrites.wrote ?_)
  revert hu
  have hrest : Keeps SameWrites (do
      if ← writeLoop E fe bytes then pure (-1,eIo)
      else
        let _ ← (if 0 < bytes.length then updateMtime E fe else pure ())
        pure (i32 bytes.length,p.2) : Ext2M (ℤ × ℤ)) := by
    refine keeps_bind (writeLoop_sameWrites E fe bytes) fun full => keeps_ite (keeps_pure _) ?_
    refine keeps_bind (keeps_ite ?_ (keeps_pure ())) fun _ => keeps_pure _
    exact keeps_bind (onDevice_sameWrites (time_sameMedium E)) fun _ => updateFile_sameWrites fe _
  exact fun hu => hrest _ _ _ hu

/-! ### Writing -/

section NoFault
variable (hE : E.NoFault) (hc : c.WellFormed) (hd : c.Direct K nb N) (hlast : nb < 12 → K nb = 0)
include hE hc hd hlast

/-- From the end of its buffer a file goes on to its next sector. It has none behind its blocks. -/
theorem nextSector_lies (h : At c N fe B f s) (hblocks : ∀ j < 12, f.inode.iBlock j = K j)
    (hsize : f.inode.iSize ≤ nb * c.sectors * 512) (hwithin : f.place ≤ f.inode.iSize)
    (hfull : f.cursor = 512) (hin : f.fileSector < nb * c.sectors)
    (hsector : f.sector = c.dataSector K f.fileSector)
    (hblock : f.blockIndex = f.fileSector / c.sectors) (hleft : f.sectorsLeft < 2^32)
    (hleads : f.sectorsLeft = c.sectors - 1 - f.fileSector % c.sectors ∨
      0 < f.sectorsLeft ∧ f.fileSector % c.sectors + 1 < c.sectors) :
    (nextSector E fe).Returns s fun failed t => failed = decide (f.fileSector + 1 = nb * c.sectors) ∧
      ∃ g, At c N fe B g t ∧ g.Lies c K nb ∧ f.Kin g ∧ (f.fileSector + 1 < nb * c.sectors →
        g.fileSector = f.fileSector + 1 ∧ g.cursor = 0 ∧
          g.sectorsLeft =
            if (f.fileSector + 1) % c.sectors = 0 then c.sectors - 1 else f.sectorsLeft - 1) := by
  have hcap := hc.capacity hd
  have hspos := c.sectors_pos
  have hlog := hc.log
  have hmod := Nat.mod_lt f.fileSector hspos
  have hfs : u32 (f.fileSector + 1) = f.fileSector + 1 := u32_of_lt (by omega)
  have hplace : (f.fileSector + 1) * 512 = f.place := by
    rw [FileEnt.place,hfull,Nat.succ_mul]
  -- what holds of the file in its next sector
  have hnext {g : FileEnt} (hmore : f.fileSector + 1 < nb * c.sectors) (hinode : g.inode = f.inode)
      (hflags : g.flags = f.flags) (hnumber : g.inodeNumber = f.inodeNumber)
      (hfile : g.fileSector = f.fileSector + 1) (hcursor : g.cursor = 0)
      (hgsector : g.sector = c.dataSector K (f.fileSector + 1))
      (hgblock : g.blockIndex = (f.fileSector + 1) / c.sectors) (hgleft : g.sectorsLeft =
        if (f.fileSector + 1) % c.sectors = 0 then c.sectors - 1 else f.sectorsLeft - 1) :
      g.Lies c K nb ∧ f.Kin g ∧ (f.fileSector + 1 < nb * c.sectors → g.fileSector = f.fileSector + 1 ∧
        g.cursor = 0 ∧ g.sectorsLeft =
          if (f.fileSector + 1) % c.sectors = 0 then c.sectors - 1 else f.sectorsLeft - 1) := by
    refine ⟨?_,⟨hnumber,by rw [hflags],by rw [hflags]⟩,fun _ => ⟨hfile,hcursor,hgleft⟩⟩
    refine ⟨by rwa [hinode],by rwa [hinode],?_,by omega,fun h => by omega,fun _ => by rw [hgsector,hfile],
      fun _ => by rw [hgblock,hfile],?_,fun _ => by rwa [hfile]⟩
    · rw [FileEnt.place,hfile,hcursor,Nat.add_zero,hplace,hinode]
      exact hwithin
    · have hsectors : c.sectors ≤ 2^18 := Nat.pow_le_pow_right (by decide) (by omega)
      rw [hgleft]
      split <;> omega
  refine returns_file h (returns_ite (fun hmore => ?_) fun hnone => ?_)
  · -- there is a further sector in the block
    have hshort : f.fileSector % c.sectors + 1 < c.sectors := by omega
    obtain ⟨hdiv,hmod'⟩ := div_mod_succ_inside hshort
    have hmore' : f.fileSector + 1 < nb * c.sectors := by
      rw [← Nat.div_lt_iff_lt_mul hspos,hdiv]
      exact Ext2Context.block_lt hin
    have hnextSector : f.sector + 1 = c.dataSector K (f.fileSector + 1) := by
      rw [hsector,Ext2Context.dataSector,Ext2Context.dataSector,hdiv,hmod',Nat.add_assoc]
    have hlt := hd.dataSector_lt hmore'
    have hdev := hd.device
    have hu : u32 (f.sector + 1) = c.dataSector K (f.fileSector + 1) := by
      rw [hnextSector,u32_of_lt (by omega)]
    refine (updateFile_at h _).bind fun _ t ht => returns_file ht ?_
    refine (readBuffer_at hE ht (show u32 (f.sector + 1) < N from hu ▸ hlt)).bind fun _ u hu' => ?_
    refine (updateFile_at hu'.2 _).bind fun _ v hv => returns_pure ⟨?_,_,hv,?_⟩
    · exact (decide_eq_false (by omega)).symm
    · refine hnext hmore' rfl rfl rfl hfs rfl hu ?_ ?_
      · change f.blockIndex = _
        rw [hblock,hdiv]
      · change f.sectorsLeft - 1 = _
        rw [hmod',if_neg (by omega)]
  · have hacross : f.fileSector % c.sectors + 1 = c.sectors := by omega
    obtain ⟨hdiv,hmod'⟩ := div_mod_succ_across hspos hacross
    have hblocks' := Ext2Context.block_lt hin
    have hcount := hd.count
    -- the block behind this one, if there is one
    have hbehind : f.blockIndex + 1 < nb ↔ f.fileSector + 1 < nb * c.sectors := by
      rw [hblock,← hdiv,Nat.div_lt_iff_lt_mul hspos]
    have hstay {g : FileEnt} {t : Ext2State} (ht : At c N fe B g t) (hend : ¬ f.blockIndex + 1 < nb)
        (hsame : g = { f with blockIndex := g.blockIndex }) :
        true = decide (f.fileSector + 1 = nb * c.sectors) ∧ ∃ g, At c N fe B g t ∧ g.Lies c K nb ∧ f.Kin g ∧
          (f.fileSector + 1 < nb * c.sectors → g.fileSector = f.fileSector + 1 ∧ g.cursor = 0 ∧
            g.sectorsLeft =
              if (f.fileSector + 1) % c.sectors = 0 then c.sectors - 1 else f.sectorsLeft - 1) := by
      have hend' : f.fileSector + 1 = nb * c.sectors := by
        have := hbehind.not.1 hend
        omega
      refine ⟨(decide_eq_true hend').symm,g,ht,?_,?_,fun h => absurd h (by omega)⟩
      · rw [hsame]
        exact ⟨hblocks,hsize,hwithin,hfull.le,fun _ => hend',fun _ => hsector,
          fun h => absurd hfull (show f.cursor ≠ 512 from ne_of_lt h),hleft,fun _ => hin⟩
      · rw [hsame]
        exact ⟨rfl,rfl,rfl⟩
    refine returns_file h (returns_ite (fun hlt => ?_) fun hge => returns_pure (hstay h (by omega) rfl))
    refine (updateFile_at h _).bind fun _ t ht => returns_file ht ?_
    refine returns_ite (fun hpos => ?_) fun hzero => ?_
    · change 0 < f.inode.iBlock (f.blockIndex + 1) at hpos
      rw [hblocks _ (by omega)] at hpos
      have hin' : f.blockIndex + 1 < nb := by
        by_contra hend
        have hnb : f.blockIndex + 1 = nb := by omega
        rw [hnb,hlast (by omega)] at hpos
        exact lt_irrefl _ hpos
      have hmore' := hbehind.1 hin'
      obtain ⟨b,hb⟩ := ht.context
      refine returns_context hb ?_
      rw [logPlus_eq hc (by decide),logPlus_eq hc (by decide)]
      refine returns_oneShl (by omega) (returns_shl32 (by omega) ?_)
      have hlt' := hd.dataSector_lt hmore'
      have hdev := hd.device
      have hsector' : u32 (u32 (f.inode.iBlock (f.blockIndex + 1) * 2^(c.superblock.sLogBlockSize + 1)) +
          c.partStart) = c.dataSector K (f.fileSector + 1) := by
        have hdata : c.dataSector K (f.fileSector + 1) =
            K (f.blockIndex + 1) * c.sectors + c.partStart := by
          rw [Ext2Context.dataSector,hdiv,hmod',← hblock,Nat.add_zero]
        rw [hblocks _ (by omega),hdata]
        rw [hdata] at hlt'
        change u32 (u32 (K (f.blockIndex + 1) * c.sectors) + c.partStart) = _
        rw [u32_of_lt (show K (f.blockIndex + 1) * c.sectors < 2^32 by omega),u32_of_lt (by omega)]
      have hbytes : 2^(c.superblock.sLogBlockSize + 10) / 512 = c.sectors := by
        rw [c.two_pow_log,Nat.mul_div_cancel_left _ (by decide)]
      refine (updateFile_at ht _).bind fun _ u hu => ?_
      refine (readBuffer_at hE hu (show u32 _ < N from hsector' ▸ hlt')).mono fun failed v hv => ?_
      obtain ⟨rfl,hv⟩ := hv
      refine ⟨(decide_eq_false (by omega)).symm,_,hv,hnext hmore' rfl rfl rfl hfs rfl hsector' ?_ ?_⟩
      · change f.blockIndex + 1 = _
        rw [hblock,hdiv]
      · change 2^(c.superblock.sLogBlockSize + 10) / 512 - 1 = _
        rw [hbytes,if_pos hmod']
    · refine returns_pure (hstay ht (fun hin' => hzero ?_) rfl)
      change 0 < f.inode.iBlock (f.blockIndex + 1)
      rw [hblocks _ (by omega)]
      exact Nat.pos_of_ne_zero (hd.nonzero _ hin')

/-- A write that begins in the blocks of the file and is led on fills them up to their end at most. -/
theorem writeLoop_lies (bytes : List UInt8) (h : At c N fe B f s) (hf : f.Lies c K nb)
    (hcursor : f.cursor < 512) (hin : f.fileSector < nb * c.sectors)
    (hleads : c.Leads f.sectorsLeft f.place bytes.length) :
    (writeLoop E fe bytes).Returns s fun full t =>
      full = decide (nb * c.sectors * 512 ≤ f.place + bytes.length) ∧
        ∃ g, At c N fe B g t ∧ g.Lies c K nb ∧ f.Kin g := by
  induction bytes generalizing s f with
  | nil =>
    refine returns_pure ⟨(decide_eq_false ?_).symm,f,h,hf,.refl f⟩
    rw [FileEnt.place,List.length_nil]
    omega
  | cons b bytes ih =>
    have hwithin := hf.within
    have hsize := hf.size
    have hcap := hc.capacity hd
    obtain ⟨hdiv,hmod⟩ := FileEnt.place_parts hcursor
    have hplace : (f.putByte b).place = f.place + 1 := by
      unfold FileEnt.putByte FileEnt.place
      split <;> exact (Nat.add_assoc _ _ _).symm
    have hput :
        (f.putByte b).inode.iSize = (if f.place = f.inode.iSize then f.inode.iSize + 1 else f.inode.iSize) ∧
        (∀ j < 12, (f.putByte b).inode.iBlock j = K j) ∧ (f.putByte b).sector = f.sector ∧
        (f.putByte b).fileSector = f.fileSector ∧ (f.putByte b).cursor = f.cursor + 1 ∧
        (f.putByte b).blockIndex = f.blockIndex ∧ (f.putByte b).sectorsLeft = f.sectorsLeft ∧
        f.Kin (f.putByte b) := by
      unfold FileEnt.putByte
      rw [hf.position]
      have hblocks := hf.blocks
      split
      · refine ⟨?_,fun j hj => (Inode.iBlock_setSize _ _ _).trans (hblocks j hj),rfl,rfl,rfl,rfl,rfl,
          rfl,rfl,rfl⟩
        have hlt : f.inode.iSize + 1 < 2^32 := by omega
        exact (Inode.iSize_setSize _ _).trans (by rw [u32_of_lt hlt,u32_of_lt hlt])
      · exact ⟨rfl,hblocks,rfl,rfl,rfl,rfl,rfl,rfl,rfl,rfl⟩
    obtain ⟨hlength,hblocks,hsector,hfile,hcur,hblock,hleft,hkin⟩ := hput
    have hroom : f.place < nb * c.sectors * 512 := by omega
    have hsize' : (f.putByte b).inode.iSize ≤ nb * c.sectors * 512 ∧
        f.place + 1 ≤ (f.putByte b).inode.iSize := by
      rw [hlength]
      split <;> omega
    refine returns_file h (returns_ite (fun hle => absurd hcursor (not_lt.2 hle)) fun _ => ?_)
    refine (updateFile_at h _).bind fun _ t ht => (updateFile_at ht _).bind fun _ u hu => ?_
    have hu : At c N fe B (f.putByte b) u := hu
    unfold Ext2Context.Leads at hleads
    rw [List.length_cons,hdiv,hmod] at hleads
    rw [List.length_cons]
    by_cases hfull : f.cursor + 1 = 512
    · rw [if_pos (show f.cursor + 1 = blockSize from hfull)]
      have hcarry : (f.cursor + (bytes.length + 1)) / 512 = 1 + bytes.length / 512 := by omega
      rw [hcarry] at hleads
      have hend : (f.fileSector + 1) * 512 = f.place + 1 := by
        unfold FileEnt.place
        omega
      refine (nextSector_lies hE hc hd hlast hu hblocks hsize'.1 (hplace ▸ hsize'.2) (hcur.trans hfull)
        (hfile.symm ▸ hin) (by rw [hsector,hfile,hf.sector hin]) (by rw [hblock,hfile,hf.block hcursor])
        (hleft.symm ▸ hf.left) ?_).bind fun failed v hv => ?_
      · rw [hleft,hfile]
        exact hleads.imp_right fun hl => ⟨by omega,by omega⟩
      rw [hfile,hleft] at hv
      obtain ⟨rfl,g,hg,hlies,hkin',hnext⟩ := hv
      by_cases hlastSector : f.fileSector + 1 = nb * c.sectors
      · rw [decide_eq_true hlastSector,if_pos rfl]
        exact returns_pure ⟨(decide_eq_true (by omega)).symm,g,hg,hlies,hkin.trans hkin'⟩
      · obtain ⟨hgfile,hgcursor,hgleft⟩ := hnext (by omega)
        have hgplace : g.place = f.place + 1 := by
          rw [FileEnt.place,hgfile,hgcursor,Nat.add_zero,hend]
        rw [decide_eq_false hlastSector,if_neg (by decide)]
        refine (ih hg hlies (by omega) (by omega) ?_).mono fun full w hw => ?_
        · rw [hgleft,hgplace,Ext2Context.Leads,← hend,Nat.mul_div_cancel _ (by decide),Nat.mul_mod_left,
            Nat.zero_add]
          have hspos := c.sectors_pos
          have hmods := Nat.mod_lt f.fileSector hspos
          rcases Nat.lt_or_ge (f.fileSector % c.sectors + 1) c.sectors with hshort | hlong
          · obtain ⟨-,hmod'⟩ := div_mod_succ_inside hshort
            rw [hmod',if_neg (by omega)]
            exact hleads.imp (by omega) fun hl => ⟨by omega,by omega⟩
          · obtain ⟨-,hmod'⟩ := div_mod_succ_across hspos
              (show f.fileSector % c.sectors + 1 = c.sectors by omega)
            rw [hmod',if_pos rfl]
            exact .inl rfl
        · obtain ⟨hfull',g',hg',hlies',hkin''⟩ := hw
          refine ⟨?_,g',hg',hlies',(hkin.trans hkin').trans hkin''⟩
          rw [hfull',hgplace,Nat.add_right_comm,Nat.add_assoc]
    · rw [if_neg (show f.cursor + 1 ≠ blockSize from hfull),Prog.pure_bind,if_neg (by decide)]
      have hshort : f.cursor + 1 < 512 := by omega
      have hlies : (f.putByte b).Lies c K nb := by
        refine ⟨hblocks,hsize'.1,hplace ▸ hsize'.2,by omega,fun h => by omega,fun _ => ?_,fun _ => ?_,
          hleft.symm ▸ hf.left,fun _ => hfile.symm ▸ hin⟩
        · rw [hsector,hfile,hf.sector hin]
        · rw [hblock,hfile,hf.block hcursor]
      refine (ih hu hlies (hcur.symm ▸ hshort) (hfile.symm ▸ hin) ?_).mono fun full w hw => ?_
      · obtain ⟨hdiv',hmod'⟩ := FileEnt.place_parts (hcur.symm ▸ hshort)
        rw [Ext2Context.Leads,hdiv',hmod',hleft,hfile,hcur,Nat.add_right_comm,Nat.add_assoc]
        exact hleads
      · obtain ⟨hfull',g',hg',hlies',hkin'⟩ := hw
        refine ⟨?_,g',hg',hlies',hkin.trans hkin'⟩
        rw [hfull',hplace,Nat.add_right_comm,Nat.add_assoc]

omit hc hlast in
theorem flush_lies (h : At c N fe B f s) (hf : f.Lies c K nb) : (flush E fe).Returns s fun r t =>
    r = 0 ∧ ∃ B', At c N fe B' { f with flags.dirty := false } t ∧ c.Beside K nb B B' := by
  refine returns_file h (returns_ite (fun hdirty => ?_) fun hclean => ?_)
  · have hin := hf.dirty hdirty
    have hsector := hf.sector hin
    refine returns_ite (fun hzero => ?_) fun _ => ?_
    · have hpos := hd.dataSector_pos hin
      omega
    have hlt : f.sector < N := hsector ▸ hd.dataSector_lt hin
    refine (writeBlock_at hE h hlt _ _).bind fun failed t ht => ?_
    obtain ⟨rfl,hat,-⟩ := ht
    refine (updateFile_at hat _).bind fun _ u hu => returns_pure ⟨rfl,_,hu,fun b hb => ?_⟩
    exact Function.update_of_ne (hsector ▸ (hb _ hin).symm) _ _
  · have hclean : f.flags.dirty = false := by simpa using hclean
    have hsame : { f with flags.dirty := false } = f := by rw [← hclean]
    refine returns_pure ⟨rfl,B,?_,fun _ _ => rfl⟩
    rwa [hsame]

omit hlast in
/-- A seek goes to its target, or stays when the target is behind the end of the file or of twelve
blocks. -/
theorem lseek_lies {ptr : ℤ} {dir : Whence} {T : ℕ} (h : At c N fe B f s) (hf : f.Lies c K nb)
    (htarget : target f ptr dir = T) : (lseek E (some fe) ptr dir).Returns s fun p t =>
      ∃ B' g, At c N fe B' g t ∧ c.Beside K nb B B' ∧ g.Lies c K nb ∧ f.Kin g ∧ g.inode = f.inode ∧
        (T < nb * c.sectors * 512 → T ≤ f.inode.iSize → p.1 = i32 T ∧ g.place = T ∧ g.cursor < 512 ∧
          g.sectorsLeft = f.countdown c T) ∧
        (12 * c.sectors * 512 ≤ T → T ≤ f.inode.iSize → f.place < T → p.1 = ptr - 1) := by
  have hcap := hc.capacity hd
  have hspos := c.sectors_pos
  have hlog := hc.log
  have hsize := hf.size
  have hwithin := hf.within
  have hcount := hd.count
  have hblocks : nb * c.sectors ≤ 12 * c.sectors := Nat.mul_le_mul_right _ hcount
  have hplace : f.fileSector * 512 + f.cursor = f.place := rfl
  have hfull := hf.of_full
  have hcursor := hf.cursor
  refine returns_file h ?_
  dsimp only
  rw [hf.position,htarget]
  have hself : c.Beside K nb B B := fun _ _ => rfl
  refine returns_ite (fun he => returns_pure ?_) fun hne => ?_
  · refine ⟨B,f,h,hself,hf,.refl f,rfl,fun hT _ => ?_,fun _ _ hlt => absurd hlt (by omega)⟩
    have hcursor : f.cursor < 512 := by
      by_contra hge
      have := hfull (by omega)
      omega
    refine ⟨by rw [he],he,hcursor,?_⟩
    have hleft := hf.left
    rw [FileEnt.countdown,← he,if_pos rfl]
    unfold u32
    omega
  refine returns_ite (fun hbehind => returns_pure ?_) fun hwithin' => ?_
  · exact ⟨B,f,h,hself,hf,.refl f,rfl,fun _ hle => absurd hle (by omega),fun _ hle => absurd hle (by omega)⟩
  have hT : T ≤ f.inode.iSize := not_lt.1 hwithin'
  -- behind its buffer the file is at its end, and every seek leaves the sector
  have hthere (hother : f.place / 512 = T / 512) : f.cursor < 512 := by
    by_contra hge
    have := hfull (by omega)
    omega
  refine returns_ite (fun hsame => ?_) fun hother => ?_
  · have hsame : f.place / 512 = T / 512 := hsame
    have hcursor := hthere hsame
    have hfile : f.fileSector = T / 512 := by omega
    refine (updateFile_at h _).bind fun _ t ht =>
      returns_pure ⟨B,_,ht,hself,?_,⟨rfl,rfl,rfl⟩,rfl,fun _ _ => ?_,
      fun h12 _ hlt => ?_⟩
    · have hgplace : FileEnt.place { f with cursor := T % 512 } = T := by
        change f.fileSector * 512 + T % 512 = T
        omega
      exact ⟨hf.blocks,hf.size,hgplace.symm ▸ hT,(Nat.mod_lt _ (by decide)).le,
        fun h => absurd h (ne_of_lt (Nat.mod_lt _ (by decide))),hf.sector,fun _ => hf.block hcursor,
        hf.left,hf.dirty⟩
    · refine ⟨rfl,?_,Nat.mod_lt _ (by decide),?_⟩
      · change f.fileSector * 512 + T % 512 = T
        omega
      · have hleft := hf.left
        change f.sectorsLeft = _
        rw [FileEnt.countdown,← hsame,if_pos rfl]
        unfold u32
        omega
    · omega
  obtain ⟨b,hb⟩ := h.context
  refine returns_context hb ?_
  rw [logPlus_eq hc (by decide),logPlus_eq hc (by decide)]
  refine returns_oneShl (by omega) ?_
  rw [c.two_pow_log,← Nat.div_div_eq_div_mul,← Nat.div_div_eq_div_mul]
  -- the file after the seek, whatever way its sector was found
  have hmoved {g : FileEnt} (hinode : g.inode = f.inode)
      (hclean : g.flags = { f.flags with dirty := false })
      (hnumber : g.inodeNumber = f.inodeNumber) (hfile : g.fileSector = T / 512) (hcur : g.cursor = T % 512)
      (hsector : T / 512 < nb * c.sectors → g.sector = c.dataSector K (T / 512))
      (hblock : g.blockIndex = T / 512 / c.sectors) (hleft : g.sectorsLeft = f.countdown c T) :
      g.Lies c K nb ∧ f.Kin g ∧ g.place = T ∧ g.cursor < 512 := by
    have hlt : g.cursor < 512 := by
      rw [hcur]
      exact Nat.mod_lt _ (by decide)
    have hgplace : g.place = T := by
      rw [FileEnt.place,hfile,hcur]
      exact Nat.div_add_mod' T 512
    refine ⟨⟨by rw [hinode]; exact hf.blocks,by rwa [hinode],by rwa [hgplace,hinode],hlt.le,
      fun h => absurd h hlt.ne,by rwa [hfile],fun _ => by rw [hblock,hfile],?_,?_⟩,⟨hnumber,?_,?_⟩,
      hgplace,hlt⟩
    · rw [hleft,FileEnt.countdown]
      have hsectors : c.sectors ≤ 2^18 := Nat.pow_le_pow_right (by decide) (by omega)
      have hu := Nat.mod_lt (f.sectorsLeft + T / 512 + 2^32 - f.place / 512) (show 0 < 2^32 by decide)
      unfold u32
      split <;> omega
    · rw [hclean]
      intro h
      cases h
    · rw [hclean]
    · rw [hclean]
  refine returns_ite (fun hblock => ?_) fun hblock => ?_
  · have hblock : T / 512 / c.sectors = f.place / 512 / c.sectors := hblock
    have hin : f.place / 512 < nb * c.sectors := by
      by_contra hend
      have hTin : T / 512 / c.sectors < nb := Ext2Context.block_lt (by omega)
      have hPout : nb ≤ f.place / 512 / c.sectors := (Nat.le_div_iff_mul_le hspos).2 (by omega)
      omega
    have hTin : T / 512 < nb * c.sectors := by
      rw [← Nat.div_lt_iff_lt_mul hspos,hblock]
      exact Ext2Context.block_lt hin
    have hcursor : f.cursor < 512 := by
      by_contra hge
      have := hfull (by omega)
      omega
    obtain ⟨hdiv,-⟩ := FileEnt.place_parts hcursor
    have hlt := hd.dataSector_lt hTin
    have hsector : u32 (f.sector + T / 512 + 2^32 - f.place / 512) = c.dataSector K (T / 512) := by
      rw [hf.sector (hdiv ▸ hin),← hdiv]
      exact hd.hop hblock hTin
    refine (flush_lies hE hd h hf).bind fun _ t ht => ?_
    obtain ⟨-,B',ht,hbeside⟩ := ht
    refine (updateFile_at ht _).bind fun _ u hu => returns_file hu ?_
    refine (readBuffer_at hE hu (show u32 _ < N from hsector ▸ hlt)).bind fun failed v hv => ?_
    obtain ⟨rfl,hv⟩ := hv
    have hcountdown : u32 (f.sectorsLeft + T / 512 + 2^32 - f.place / 512) = f.countdown c T := by
      rw [FileEnt.countdown,if_pos hblock]
    have hg := hmoved (g := { f with
      flags.dirty := false
      fileSector := T / 512
      sector := u32 (f.sector + T / 512 + 2^32 - f.place / 512)
      sectorsLeft := u32 (f.sectorsLeft + T / 512 + 2^32 - f.place / 512)
      cursor := T % 512
      buffer := B' (u32 (f.sector + T / 512 + 2^32 - f.place / 512)) }) rfl rfl rfl rfl rfl
      (fun _ => hsector)
      (by rw [hf.block hcursor,← hdiv,hblock]) hcountdown
    refine returns_pure ⟨B',_,hv,hbeside,hg.1,hg.2.1,rfl,fun _ _ => ⟨rfl,hg.2.2.1,hg.2.2.2,hcountdown⟩,?_⟩
    intro h12 _ _
    omega
  · have hblock : T / 512 / c.sectors ≠ f.place / 512 / c.sectors := hblock
    refine (flush_lies hE hd h hf).bind fun _ t ht => ?_
    obtain ⟨-,B',ht,hbeside⟩ := ht
    refine returns_ite (fun hfar => returns_pure ?_) fun hnear => ?_
    · have hfar : 12 * c.sectors ≤ T / 512 := (Nat.le_div_iff_mul_le hspos).1 hfar
      refine ⟨B',_,ht,hbeside,?_,⟨rfl,rfl,rfl⟩,rfl,fun _ _ => by omega,fun _ _ _ => rfl⟩
      exact ⟨hf.blocks,hf.size,hf.within,hf.cursor,hf.full,hf.sector,hf.block,hf.left,fun h => by cases h⟩
    have hlim : T / 512 < 12 * c.sectors := (Nat.div_lt_iff_lt_mul hspos).1 (by omega)
    refine returns_oneShl (by omega) ?_
    rw [Ext2Context.sector_in_block]
    refine (updateFile_at ht _).bind fun _ u hu => returns_file hu ?_
    have hcountdown : u32 (c.sectors + 2^32 - T / 512 % c.sectors - 1) = f.countdown c T := by
      have hmod := Nat.mod_lt (T / 512) hspos
      have hsectors : c.sectors ≤ 2^18 := Nat.pow_le_pow_right (by decide) (by omega)
      rw [FileEnt.countdown,if_neg hblock]
      unfold u32
      omega
    have hsector (hin : T / 512 < nb * c.sectors) : u32 (f.inode.iBlock (T / 512 / c.sectors) * c.sectors +
        c.partStart + T / 512 % c.sectors) = c.dataSector K (T / 512) := by
      have hin' := Ext2Context.block_lt hin
      rw [hf.blocks _ (by omega)]
      exact u32_of_lt (lt_of_lt_of_le (hd.dataSector_lt hin) hd.device)
    have hread : (readBuffer E fe (u32 (f.inode.iBlock (T / 512 / c.sectors) * c.sectors + c.partStart +
        T / 512 % c.sectors))).Returns u fun failed v => (T / 512 < nb * c.sectors → failed = false) ∧
          ∃ d, At c N fe B' { f with
            flags.dirty := false
            blockIndex := T / 512 / c.sectors
            fileSector := T / 512
            cursor := T % 512
            sector := u32 (f.inode.iBlock (T / 512 / c.sectors) * c.sectors + c.partStart +
              T / 512 % c.sectors)
            sectorsLeft := u32 (c.sectors + 2^32 - T / 512 % c.sectors - 1)
            buffer := d } v := by
      by_cases hin : T / 512 < nb * c.sectors
      · have hlt := hd.dataSector_lt hin
        refine (readBuffer_at hE hu (show u32 _ < N from hsector hin ▸ hlt)).mono fun failed v hv => ?_
        exact ⟨fun _ => hv.1,_,hv.2⟩
      · exact (readBuffer_total E hu _).mono fun failed v hv => ⟨fun h => absurd h hin,hv⟩
    refine hread.bind fun failed v hv => ?_
    obtain ⟨hfailed,d,hv⟩ := hv
    have hg := hmoved (g := { f with
      flags.dirty := false
      blockIndex := T / 512 / c.sectors
      fileSector := T / 512
      cursor := T % 512
      sector := u32 (f.inode.iBlock (T / 512 / c.sectors) * c.sectors + c.partStart + T / 512 % c.sectors)
      sectorsLeft := u32 (c.sectors + 2^32 - T / 512 % c.sectors - 1)
      buffer := d }) rfl rfl rfl rfl rfl hsector rfl hcountdown
    refine returns_ite (fun hyes => returns_pure ?_) fun _ => returns_pure ?_
    · refine ⟨B',_,hv,hbeside,hg.1,hg.2.1,rfl,fun hT _ => ?_,fun _ _ _ => by omega⟩
      exact absurd (hfailed (by omega)) (by rw [hyes]; decide)
    · exact ⟨B',_,hv,hbeside,hg.1,hg.2.1,rfl,fun _ _ => ⟨rfl,hg.2.2.1,hg.2.2.2,hcountdown⟩,
        fun _ _ _ => by omega⟩

/-- A write that is safe keeps the file where its position says. One that needs a block behind those of
the file is refused. -/
theorem write_lies (bytes : List UInt8) (e : ℤ) (h : At c N fe B f s) (hf : f.Lies c K nb)
    (hwrite : f.flags.write = true) (hsafe : f.Safe c nb (.write bytes)) :
    (write E (some fe) bytes e).Returns s fun p t =>
      (bytes ≠ [] → nb * c.sectors * 512 < f.start + bytes.length → p.1 = -1) ∧
        ∃ B' g, At c N fe B' g t ∧ c.Beside K nb B B' ∧ g.Lies c K nb ∧ f.Kin g := by
  have hcap := hc.capacity hd
  have hsize := hf.size
  have hseek : (if f.flags.append then lseek E (some fe) 0 .end_ else pure (0,e)).Returns s fun p t =>
      ∃ B' g, At c N fe B' g t ∧ c.Beside K nb B B' ∧ g.Lies c K nb ∧ f.Kin g ∧
        (f.start < nb * c.sectors * 512 → g.place = f.start ∧ g.cursor < 512 ∧
          g.sectorsLeft = f.countdown c f.start ∧ ¬ (f.flags.append = true ∧ p.1 = -1)) ∧
        (f.flags.append = true → 12 * c.sectors * 512 ≤ f.inode.iSize → position f < f.inode.iSize →
          p.1 = -1) := by
    refine returns_ite (fun happend => ?_) fun happend => returns_pure ?_
    · have htarget : target f 0 .end_ = f.inode.iSize := by
        have hnat : ((f.inode.iSize : ℤ) + 0) = ((f.inode.iSize : ℕ) : ℤ) := add_zero _
        rw [target,hnat]
        exact u32OfInt_natCast f.inode.iSize_lt
      have hstart : f.start = f.inode.iSize := if_pos happend
      refine (lseek_lies hE hc hd h hf htarget).mono fun p t ht => ?_
      obtain ⟨B',g,hg,hbeside,hlies,hkin,-,hnear,hfar⟩ := ht
      refine ⟨B',g,hg,hbeside,hlies,hkin,fun hin => ?_,fun _ h12 hlt => ?_⟩
      · rw [hstart] at hin ⊢
        obtain ⟨hres,hplace,hcursor,hleft⟩ := hnear hin le_rfl
        refine ⟨hplace,hcursor,hleft,fun hr => ?_⟩
        have hr := hr.2
        rw [hres,i32_of_lt (by omega)] at hr
        omega
      · rw [hf.position] at hlt
        exact hfar h12 le_rfl hlt
    · refine ⟨B,f,h,fun _ _ => rfl,hf,.refl f,fun hin => ?_,fun h => absurd h happend⟩
      have hstart : f.start = f.place := by
        rw [FileEnt.start,if_neg happend,hf.position]
      rw [hstart] at hin ⊢
      have hcursor : f.cursor < 512 := by
        have hfull := hf.of_full
        have hcursor := hf.cursor
        by_contra hge
        have := hfull (by omega)
        omega
      refine ⟨rfl,hcursor,?_,fun h => happend h.1⟩
      have hleft := hf.left
      rw [FileEnt.countdown,if_pos rfl]
      unfold u32
      omega
  refine returns_file h ?_
  rw [if_neg (by simp [hwrite])]
  refine hseek.bind fun p t ht => ?_
  obtain ⟨r,e'⟩ := p
  obtain ⟨B',g,hg,hbeside,hlies,hkin,hnear,hfar⟩ := ht
  refine returns_ite (fun _ => returns_pure ⟨fun _ _ => rfl,B',g,hg,hbeside,hlies,hkin⟩) fun hgo => ?_
  by_cases hne : bytes = []
  · subst hne
    refine returns_bind_of_ok rfl ?_
    rw [if_neg (by decide),if_neg (by decide)]
    exact returns_pure ⟨fun h => absurd rfl h,B',g,hg,hbeside,hlies,hkin⟩
  have hsafe : f.start < nb * c.sectors * 512 ∧ c.Leads (f.countdown c f.start) f.start bytes.length := by
    refine (hsafe.resolve_left hne).resolve_left fun hrefused => hgo ⟨hrefused.1,?_⟩
    exact hfar hrefused.1 hrefused.2.1 hrefused.2.2
  obtain ⟨hplace,hcursor,hleft,-⟩ := hnear hsafe.1
  obtain ⟨hdiv,-⟩ := FileEnt.place_parts hcursor
  have hleads : c.Leads g.sectorsLeft g.place bytes.length := by
    rw [hleft,hplace]
    exact hsafe.2
  refine (writeLoop_lies hE hc hd hlast bytes hg hlies hcursor (by omega) hleads).bind fun full u hu => ?_
  obtain ⟨rfl,g',hg',hlies',hkin'⟩ := hu
  refine returns_ite (fun _ => returns_pure ⟨fun _ _ => rfl,B',g',hg',hbeside,hlies',hkin.trans hkin'⟩)
    fun hroom => ?_
  have hroom : f.start + bytes.length < nb * c.sectors * 512 := by
    rw [hplace] at hroom
    simpa using hroom
  rw [if_pos (List.length_pos_iff.2 hne)]
  refine Returns.bind (Q := fun _ v => ∃ now, At c N fe B' { g' with
    inode := g'.inode.setMtime now, flags.fsDirty := true } v) ?_ fun _ v hv => ?_
  · exact (time_at E hg').bind fun now v hv => (updateFile_at hv _).mono fun _ w hw => ⟨now,hw⟩
  obtain ⟨now,hv⟩ := hv
  have hlength : (g'.inode.setMtime now).iSize = g'.inode.iSize := Inode.iSize_setMtime _ _
  refine returns_pure ⟨fun _ hmore => absurd hmore (by omega),B',_,hv,hbeside,?_,
    (hkin.trans hkin').trans ⟨rfl,rfl,rfl⟩⟩
  exact ⟨fun j hj => (Inode.iBlock_setMtime _ _ _).trans (hlies'.blocks j hj),hlength.symm ▸ hlies'.size,
    hlength.symm ▸ hlies'.within,hlies'.cursor,hlies'.full,hlies'.sector,hlies'.block,hlies'.left,
    hlies'.dirty⟩

end NoFault

/-! ### The inode -/

theorem loadInodeBlock_sameWrites (E : Env) (n : ℤ) : Keeps SameWrites (loadInodeBlock E n) := by
  have hsysbuf (b : ℕ) : Keeps SameWrites (readSysbuf E b) := by
    refine keeps_bind (onDevice_sameWrites (blockRead_sameMedium E b)) fun o => ?_
    cases o with
    | none => exact keeps_pure ()
    | some d => exact keeps_modify fun _ => rfl
  have hdivisor (k : ℕ) : Keeps SameWrites (divisor k) := keeps_ite (keeps_stop _) (keeps_pure _)
  have hshift (x k : ℕ) : Keeps SameWrites (shl32 x k) := keeps_ite (keeps_pure _) (keeps_stop _)
  refine keeps_bind context_sameWrites fun c => keeps_bind (hdivisor _) fun _ => ?_
  refine keeps_bind (hshift _ _) fun _ => keeps_bind (hsysbuf _) fun _ => ?_
  refine keeps_bind context_sameWrites fun c => keeps_bind (hshift _ _) fun _ => ?_
  refine keeps_bind (hdivisor _) fun _ => keeps_bind (hdivisor _) fun _ => ?_
  exact keeps_bind (hsysbuf _) fun _ => keeps_ite (keeps_stop _) (keeps_pure _)

/-- The inode of a file without unwritten data goes to its sector of the inode table. -/
theorem flushInode_wrote (hE : E.NoFault) (hc : c.WellFormed) (hn : c.Holds B n N) (h : At c N fe B f s)
    (hnumber : f.inodeNumber = n) (hclean : f.flags.dirty = false) : (flushInode E fe).Every s fun _ t =>
      Wrote (fun ev => ∃ d, ev = .write .ext2FlushInode (c.inodeSector B n) d) s t := by
  obtain ⟨b,hb⟩ := h.context
  have hfile : Ext2.file fe s = .ok (f,s) := by rw [Ext2.file,h.file]
  have hnone : Wrote (fun ev => ∃ d, ev = .write .ext2FlushInode (c.inodeSector B n) d) s s :=
    SameWrites.wrote rfl
  refine every_bind_of_ok hfile ?_
  refine every_bind_of_ok (show Ext2.context s = .ok ({ c with sysbuf := b },s) by rw [Ext2.context,hb]) ?_
  have hdivisor : divisor c.superblock.sInodesPerGroup s = .ok (c.superblock.sInodesPerGroup,s) := by
    rw [divisor,if_neg hc.perGroup]
    rfl
  refine every_bind_of_ok hdivisor ?_
  refine every_ite (fun _ => ?_) fun _ => every_pure hnone
  have hflush : flush E fe s = .ok (0,s) := by
    rw [flush,bind_of_ok hfile,hclean]
    rfl
  refine every_bind_of_ok hflush ?_
  obtain ⟨p,t,hload,rfl,hat,hcontext⟩ := loadInodeBlock_at hE hc hn h
  rw [hnumber]
  refine every_bind_of_ok hload ?_
  have hload := loadInodeBlock_sameWrites E n _ _ _ hload
  refine every_bind_of_ok (show Ext2.file fe t = .ok (f,t) by rw [Ext2.file,hat.file]) ?_
  have hsame {α β : Type} {x : Ext2M α} {y : α → Ext2M β} {P : Event → Prop} {u : Ext2State}
      (hx : Keeps SameWrites x) (hu : SameWrites s u)
      (hy : ∀ a v, SameWrites s v → (y a).Every v fun _ w => Wrote P s w) :
      (x >>= y).Every u fun _ w => Wrote P s w :=
    Every.bind (Q := fun _ v => SameWrites s v) (fun _ _ hv => IsTrans.trans _ _ _ hu (hx _ _ _ hv)) hy
  refine hsame context_sameWrites hload fun c' u hu => hsame (keeps_modify fun _ => rfl) hu fun _ v hv => ?_
  refine hsame context_sameWrites hv fun c'' w hw => (writeBlock_wrote E _ _ _).bind fun _ x hx => ?_
  intro r y hy
  exact (hw.wrote.trans hx).trans
    ((keeps_bind (updateFile_sameWrites fe _) fun _ => keeps_pure (0 : ℤ)) _ _ _ hy : SameWrites x y).wrote

/-! ### Runs -/

section NoFault
variable (hE : E.NoFault) (ho : c.Owned B₀ n nb N) (hlast : nb < 12 → (c.inodeAt B₀ n).iBlock nb = 0)
include hE ho

omit hE in
theorem flushes_owned (hf : f.Lies c (c.inodeAt B₀ n).iBlock nb) {ev : Event} (hev : Flushes f ev) :
    c.Owns B₀ n nb ev := by
  obtain ⟨hdirty,d,rfl⟩ := hev
  have hin := hf.dirty hdirty
  exact ⟨_,_,d,rfl,.inl ⟨f.fileSector,hin,hf.sector hin⟩⟩

include hlast in
/-- One call writes sectors of the file only, and keeps the file where its position says. -/
theorem call_inside (op : FileOp) (e : ℤ) (h : At c N fe B f s) (hf : f.Lies c (c.inodeAt B₀ n).iBlock nb)
    (hwrite : f.flags.write = true) (hsafe : f.Safe c nb op) : (call E fe e op).Returns s fun _ t =>
      Wrote (c.Owns B₀ n nb) s t ∧ ∃ B' g, At c N fe B' g t ∧ c.Beside (c.inodeAt B₀ n).iBlock nb B B' ∧
        g.Lies c (c.inodeAt B₀ n).iBlock nb ∧ f.Kin g := by
  have howns {t : Ext2State} (ht : Wrote (Flushes f) s t) : Wrote (c.Owns B₀ n nb) s t :=
    ht.mono fun ev hev => flushes_owned ho hf hev
  cases op with
  | write bytes =>
    obtain ⟨p,t,hrun,-,ht⟩ := write_lies hE ho.wellFormed ho.direct hlast bytes e h hf hwrite hsafe
    exact ⟨p,t,hrun,howns (write_wrote E bytes e h.file p t hrun),ht⟩
  | seek ptr dir =>
    obtain ⟨p,t,hrun,B',g,hg,hbeside,hlies,hkin,-⟩ := 
      @lseek_lies _ _ _ _ _ _ _ _ _ hE ho.wellFormed ho.direct ptr dir _ h hf rfl
    exact ⟨p,t,hrun,howns (lseek_wrote E ptr dir h.file p t hrun),B',g,hg,hbeside,hlies,hkin⟩

include hlast in
theorem calls_inside (ops : List FileOp) (e : ℤ) (h : At c N fe B f s)
    (hf : f.Lies c (c.inodeAt B₀ n).iBlock nb) (hwrite : f.flags.write = true)
    (hsafe : Throughout (FileEnt.Safe c nb) E fe e ops s) :
    (calls E fe e ops).Returns s fun _ t => Wrote (c.Owns B₀ n nb) s t ∧ ∃ B' g, At c N fe B' g t ∧
      c.Beside (c.inodeAt B₀ n).iBlock nb B B' ∧ g.Lies c (c.inodeAt B₀ n).iBlock nb ∧ f.Kin g := by
  induction ops generalizing s f B with
  | nil => exact returns_pure ⟨SameWrites.wrote rfl,B,f,h,fun _ _ => rfl,hf,.refl f⟩
  | cons op ops ih =>
    obtain ⟨p,t,hcall,hwrote,B',g,hg,hbeside,hlies,hkin⟩ := call_inside hE ho hlast op e h hf hwrite
      (hsafe.1 f h.file)
    refine returns_bind_of_ok hcall ?_
    refine (ih hg hlies (hkin.write.trans hwrite) (hsafe.2 p t hcall)).mono fun _ u hu => ?_
    obtain ⟨hwrote',B'',g',hg',hbeside',hlies',hkin'⟩ := hu
    exact ⟨hwrote.trans hwrote',B'',g',hg',fun b hb => (hbeside' b hb).trans (hbeside b hb),hlies',
      hkin.trans hkin'⟩

theorem close_inside (e : ℤ) (h : At c N fe B f s) (hf : f.Lies c (c.inodeAt B₀ n).iBlock nb)
    (hnumber : f.inodeNumber = n) (hbeside : c.Beside (c.inodeAt B₀ n).iBlock nb B₀ B) :
    (close E (some fe) e).Returns s fun p t => p.1 = 0 ∧ Wrote (c.Owns B₀ n nb) s t := by
  have hflush : (if f.flags.dirty then do pure ((← flush E fe) != 0) else pure false : Ext2M Bool).Returns s
      fun failed t => failed = false ∧ Wrote (c.Owns B₀ n nb) s t ∧ ∃ B',
        At c N fe B' { f with flags.dirty := false } t ∧ c.Beside (c.inodeAt B₀ n).iBlock nb B₀ B' := by
    refine returns_ite (fun _ => ?_) fun hclean => returns_pure ⟨rfl,SameWrites.wrote rfl,B,?_,hbeside⟩
    · obtain ⟨r,t,hrun,rfl,B',hat,hbeside'⟩ := flush_lies hE ho.direct h hf
      have hwrote := flush_wrote E h.file 0 t hrun
      refine returns_bind_of_ok hrun (returns_pure ⟨rfl,?_,B',hat,?_⟩)
      rotate_left
      · exact fun b hb => (hbeside' b hb).trans (hbeside b hb)
      exact hwrote.mono fun ev hev => flushes_owned ho hf hev
    · have hclean : f.flags.dirty = false := by simpa using hclean
      have hsame : { f with flags.dirty := false } = f := by rw [← hclean]
      rwa [hsame]
  refine returns_file h (hflush.bind fun failed t ht => ?_)
  obtain ⟨rfl,hwrote,B',hat,hbeside'⟩ := ht
  rw [if_neg (by decide)]
  -- the two sectors of the inode are still the ones from before
  have hgroup : B' (c.groupSector n) = B₀ (c.groupSector n) := hbeside' _ ho.group_apart
  have hplace := Ext2Context.inodeSector_congr hgroup
  have hholds : c.Holds B' n N := ⟨ho.holds.group,hplace ▸ ho.holds.inode,hplace ▸ ho.holds.apart⟩
  have hinode : (if f.flags.fsDirty then do pure ((← flushInode E fe) != 0)
      else pure false : Ext2M Bool).Returns t fun failed u =>
        failed = false ∧ Wrote (c.Owns B₀ n nb) s u := by
    refine returns_ite (fun hdirty => ?_) fun _ => returns_pure ⟨rfl,hwrote⟩
    obtain ⟨r,u,hrun,rfl,-⟩ := flushInode_at hE ho.wellFormed hholds hat hnumber rfl hdirty
    have hwrote' := flushInode_wrote hE ho.wellFormed hholds hat hnumber rfl 0 u hrun
    refine returns_bind_of_ok hrun (returns_pure ⟨rfl,hwrote.trans (hwrote'.mono fun ev hev => ?_)⟩)
    obtain ⟨d,rfl⟩ := hev
    exact ⟨_,_,d,rfl,.inr hplace⟩
  refine returns_file hat (hinode.bind fun failed u hu => ?_)
  obtain ⟨rfl,hwrote'⟩ := hu
  rw [if_neg (by decide)]
  refine Returns.bind (Q := fun _ v => Wrote (c.Owns B₀ n nb) s v) (returns_modify ?_) fun _ v hv =>
    returns_pure ⟨rfl,hv⟩
  exact hwrote'

end NoFault

/-- A file just opened stands at its first byte. -/
theorem opened_lies (ho : c.Owned B₀ n nb N) (b : Sector) (flags : Ext2Flags)
    (hclean : flags.dirty = false) :
    FileEnt.Lies c (c.inodeAt B₀ n).iBlock nb { opened c B₀ n b with flags := flags } := by
  have hpos := c.sectors_pos
  have hlog := ho.wellFormed.log
  have hsectors : c.sectors ≤ 2^18 := Nat.pow_le_pow_right (by decide) (by omega)
  constructor
  · exact fun _ _ => rfl
  · exact ho.size
  · simp [FileEnt.place,opened]
  · exact Nat.zero_le _
  · intro h
    exact absurd (show 0 = 512 from h) (by decide)
  · intro h
    exact opened_sector ho.direct (Nat.pos_of_mul_pos_right h) b
  · intro _
    exact (Nat.zero_div _).symm
  · change c.sectors - 1 < 2^32
    omega
  · intro h
    rw [show flags.dirty = true from h] at hclean
    cases hclean

/-- A file of at most twelve blocks that is opened for writing: writes and seeks of which each is safe,
and the closing, write only sectors of its blocks and the one with its inode, and a write that needs a
further block is refused. -/
theorem writes_inside (hE : E.NoFault) {s₀ : Ext2State} {path : List UInt8} {flags : OpenFlags} {e e' : ℤ}
    (hm : s₀.context = some c) (ho : c.Owned s₀.dev.blocks n nb s₀.dev.size)
    (hlast : nb < 12 → (c.inodeAt s₀.dev.blocks n).iBlock nb = 0)
    (hpath : Leads E c s₀.dev.size path n s₀.dev.blocks) (hflags : flags.wronly = true ∨ flags.rdwr = true)
    (hopen : openPath E path flags e s₀ = .ok ((some fe,e'),s)) (ops : List FileOp)
    (hsafe : Throughout (FileEnt.Safe c nb) E fe e ops s) :
    (calls E fe e ops).Returns s fun _ t => Wrote (c.Owns s₀.dev.blocks n nb) s t ∧
      (∀ f bytes, t.files fe = some f → f.Safe c nb (.write bytes) → bytes ≠ [] →
        nb * c.sectors * 512 < f.start + bytes.length →
          (write E (some fe) bytes e).Returns t fun p _ => p.1 = -1) ∧
      (close E (some fe) e).Returns t fun p u => p.1 = 0 ∧ Wrote (c.Owns s₀.dev.blocks n nb) s u := by
  have hmounted : Mounted c s₀.dev.size s₀.dev.blocks s₀ := ⟨⟨c.sysbuf,hm⟩,rfl,rfl⟩
  obtain ⟨-,hopened⟩ := (openPath_at flags e hmounted hpath).of_ok hopen
  obtain ⟨b,-,hat⟩ := hopened fe rfl
  have hlies := opened_lies ho b (access flags ⟨true,false,false,false,false⟩) rfl
  have hwrite : (access flags ⟨true,false,false,false,false⟩).write = true := by
    change (false || flags.rdwr || flags.wronly) = true
    rcases hflags with h | h <;> simp [h]
  refine (calls_inside hE ho hlast ops e hat hlies hwrite hsafe).mono fun _ t ht => ?_
  obtain ⟨hwrote,B',g,hg,hbeside,hlies',hkin⟩ := ht
  refine ⟨hwrote,fun f bytes hf hbytes hne hmore => ?_,?_⟩
  · obtain rfl : g = f := Option.some.inj (hg.file.symm.trans hf)
    refine (write_lies hE ho.wellFormed ho.direct hlast bytes e hg hlies' (hkin.write.trans hwrite)
      hbytes).mono fun p u hu => hu.1 hne hmore
  · refine (close_inside hE ho e hg hlies' hkin.number hbeside).mono fun p u hu => ?_
    exact ⟨hu.1,hwrote.trans hu.2⟩

/-- A byte appended to the five of the file on the small volume. -/
theorem appended_byte_inside : let E := Env.calm (fun _ => 90) 8
    ∃ s, openPath E smallPath { oWronly with append := true } 0 smallState = .ok ((some 0,0),s) ∧
      (calls E 0 0 [.write [0x21]]).Returns s fun _ t => Wrote (smallContext.Owns smallExt2 3 1) s t ∧
        (∀ f bytes, t.files 0 = some f → f.Safe smallContext 1 (.write bytes) → bytes ≠ [] →
          1 * smallContext.sectors * 512 < f.start + bytes.length →
            (write E (some 0) bytes 0).Returns t fun p _ => p.1 = -1) ∧
        (close E (some 0) 0).Returns t fun p u =>
          p.1 = 0 ∧ Wrote (smallContext.Owns smallExt2 3 1) s u := by
  intro E
  have hE : E.NoFault := ⟨fun _ => rfl,fun _ => rfl,fun _ => rfl⟩
  have hrun : Prog.test (openPath E smallPath { oWronly with append := true } 0) smallState (fun p t =>
      decide (p = (some 0,0)) && (t.files 0).any fun f =>
        decide (f.start = 5 ∧ f.countdown smallContext 5 = 1)) = true := by decide +kernel
  obtain ⟨p,s,hopen,hp⟩ := ok_of_test hrun
  obtain ⟨rfl,hfile⟩ : p = (some 0,0) ∧ _ := by simpa only [Bool.and_eq_true,decide_eq_true_eq] using hp
  have hstart (f : FileEnt) (hf : s.files 0 = some f) : f.start = 5 ∧ f.countdown smallContext 5 = 1 := by
    simpa only [hf,Option.any_some,decide_eq_true_eq] using hfile
  have hself : smallContext.Elsewhere smallExt2 3 1 smallExt2 := ⟨fun _ _ _ => rfl,fun _ _ => rfl⟩
  refine ⟨s,hopen,@writes_inside _ _ _ _ _ _ hE smallState smallPath _ 0 0 rfl smallExt2_owned
    (fun _ => by decide +kernel)
    (smallPath_leads hE (by decide) hself) (.inl rfl) hopen [.write [0x21]]
    ⟨fun f hf => ?_,fun _ _ _ => trivial⟩⟩
  obtain ⟨hf,hleft⟩ := hstart f hf
  refine .inr (.inr ?_)
  rw [hf,hleft,smallExt2_sectors]
  refine ⟨by decide,.inl ?_⟩
  rw [smallExt2_sectors]

/-- The small volume behind one sector, with an empty file. -/
def emptyExt2 : ℕ → Sector
  | 0 => .zero
  | 7 => ((smallExt2 6).setLe32 260 0).setLe32 296 0
  | b+1 => smallExt2 b

def shiftedContext : Ext2Context := { smallContext with partStart := 1 }

def shiftedState : Ext2State :=
  { smallState with dev := ⟨emptyExt2,17,0,[]⟩,context := some shiftedContext }

/-- Whether the event is a write of the block. -/
def writesTo (b : ℕ) : Event → Bool
  | .write _ b' _ => b' == b
  | _ => false

/-- The byte written to the empty file goes to the first sector of the partition, and the write is not
refused. -/
theorem empty_file_leaves : let E := Env.calm (fun _ => 90) 8
    shiftedContext.Owned emptyExt2 3 0 17 ∧
    (do let _ ← openPath E smallPath oWronly 0
        let p ← write E (some 0) [0x21] 0
        let _ ← close E (some 0) 0
        pure p.1 : Ext2M ℤ).Returns shiftedState fun r t =>
      r ≠ -1 ∧ ¬ Wrote (shiftedContext.Owns emptyExt2 3 0) shiftedState t := by
  intro E
  refine ⟨⟨⟨by decide +kernel,by decide +kernel,by decide +kernel,by decide +kernel⟩,
    ⟨by decide +kernel,by decide +kernel,by decide +kernel⟩,⟨by decide,by simp,by simp,by decide⟩,
      by decide +kernel,
    by simp,by simp,by simp⟩,?_⟩
  have hrun : Prog.test (do
      let _ ← openPath E smallPath oWronly 0
      let p ← write E (some 0) [0x21] 0
      let _ ← close E (some 0) 0
      pure p.1 : Ext2M ℤ) shiftedState (fun r t =>
        decide (r ≠ -1) && t.dev.writes.any (writesTo 1)) = true := by
    decide +kernel
  obtain ⟨r,t,hrun,hp⟩ := ok_of_test hrun
  obtain ⟨hr,hany⟩ : r ≠ -1 ∧ t.dev.writes.any (writesTo 1) = true := by
    simpa only [Bool.and_eq_true,decide_eq_true_eq] using hp
  refine ⟨r,t,hrun,hr,fun hwrote => ?_⟩
  obtain ⟨ev,hev,hone⟩ := List.any_eq_true.1 hany
  obtain ⟨es,hes,howns⟩ := hwrote
  have hmem : ev ∈ es := by
    rw [hes] at hev
    exact (List.mem_append.1 hev).resolve_right (by simp [shiftedState,Device.writes])
  obtain ⟨o,b,d,rfl,hplace⟩ := howns ev hmem
  obtain rfl : b = 1 := beq_iff_eq.1 hone
  rcases hplace with ⟨k,hk,-⟩ | hinode
  · exact absurd hk (by simp)
  · exact absurd hinode (by decide +kernel)

end Ext2

end Gristle
