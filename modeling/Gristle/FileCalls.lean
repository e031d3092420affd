import Gristle.Serving
import Gristle.Lib.Requests

/-! The calls on an open file, without faults: the driver does with its descriptor what the open file does, to
the byte and to the cluster, and touches nothing else. -/
namespace Gristle
open Prog

/-- Descriptor `fd` is the one of the open file `o` with the clusters `cs`. -/
abbrev FatState.Carries (fd : Fd) (cs : List ℕ) (o : OpenFile) (s : FatState) : Prop :=
  (s.fileNum fd).Carries s.fatfs s.dev.size s.dev.blocks cs o

/-- What a call on descriptor `fd` did: the clusters of the file may have become more, only they and the entry
were written, and the descriptor is the one of the open file `o`. -/
structure Working (fd : Fd) (s : FatState) (cs : List ℕ) (t : FatState) (cs' : List ℕ) (o : OpenFile) : Prop where
  but : SameBut fd s t
  origin : (t.fileNum fd).origin = (s.fileNum fd).origin
  grows : Grows s.fatfs (s.fileNum fd).entrySector (s.fileNum fd).entryNumber s.dev.blocks cs t.dev.blocks cs'
  carries : (t.fileNum fd).Carries s.fatfs s.dev.size t.dev.blocks cs' o

namespace Working
variable {fd : Fd} {s t u : FatState} {cs cs' cs'' : List ℕ} {o o' : OpenFile}

theorem refl (h : s.Carries fd cs o) : Working fd s cs s cs o :=
  ⟨Std.Refl.refl s,rfl,Grows.refl h.chain.inRange,h⟩

theorem next (h : Working fd s cs t cs' o) : t.Carries fd cs' o := by
  rw [FatState.Carries,h.but.fatfs,h.but.size]
  exact h.carries

theorem trans (h : Working fd s cs t cs' o) (h' : Working fd t cs' u cs'' o') : Working fd s cs u cs'' o' := by
  have hes := FileS.field_of_origin FileS.entrySector (fun _ => rfl) h.origin
  have hen := FileS.field_of_origin FileS.entryNumber (fun _ => rfl) h.origin
  have hgrows := h'.grows
  have hcarries := h'.carries
  rw [h.but.fatfs,hes,hen] at hgrows
  rw [h.but.fatfs,h.but.size] at hcarries
  exact ⟨IsTrans.trans _ _ _ h.but h'.but,h'.origin.trans h.origin,h.grows.trans h.carries.volume hgrows,hcarries⟩

theorem of_after {B : ℕ → Sector} {f : FileS} (h : After fd s t B f) (ho : f.origin = (s.fileNum fd).origin)
    (hgrows : Grows s.fatfs (s.fileNum fd).entrySector (s.fileNum fd).entryNumber s.dev.blocks cs B cs')
    (hcarries : f.Carries s.fatfs s.dev.size B cs' o) : Working fd s cs t cs' o := by
  refine ⟨h.but,?_,?_,?_⟩
  · rw [h.file,ho]
  · rw [h.blocks]
    exact hgrows
  · rw [h.file,h.blocks]
    exact hcarries

end Working

/-! ### Steps of a call -/

section NoFault
variable {E : Env} (hE : E.NoFault) {fd : Fd} {s : FatState} {cs : List ℕ} {o : OpenFile} (h : s.Carries fd cs o)
include hE h

theorem fatFlush_carries : (fatFlush E fd).Returns s fun r t => r = 0 ∧ t.fileNum fd = (s.fileNum fd).clean ∧
    Working fd s cs t cs o := by
  apply (fatFlushWith_returns hE (h.place.sector_ne h.volume)
    (h.place.sector_lt h.volume h.chain.inRange)).mono
  intro r t ht
  exact ⟨ht.1,ht.2.file,.of_after ht.2 rfl (Grows.flushed h.volume h.chain.inRange h.place) h.flushed⟩

/-- Inside the chain the next sector follows. -/
theorem fatNextSector_carries (hend : (s.fileNum fd).cursor = 512) (hroom : o.pos < o.capacity) :
    (fatNextSector E fd).Returns s fun failed t => failed = false ∧ Working fd s cs t cs o ∧
      (t.fileNum fd).cursor = 0 ∧ (t.fileNum fd).flags.dirty = false := by
  have hpos := h.pos
  have hcapacity := h.capacity
  unfold FileS.offset at hpos
  apply (fatNextSectorWith_inside hE h.volume h.chain h.place (by omega)).mono
  rintro failed t ⟨hfailed,ht,har,hmark⟩
  exact ⟨hfailed,.of_after ht (FileS.origin_of_still har.still) (Grows.flushed h.volume h.chain.inRange h.place)
    (h.flushed.arrived rfl hend har rfl rfl fun hm => hmark.symm.trans hm),har.cursor,har.clean⟩

/-- Behind the chain a reader finds nothing. -/
theorem fatNextSector_reader (hend : (s.fileNum fd).cursor = 512) (hbehind : o.pos = o.capacity)
    (hread : o.write = false) : (fatNextSector E fd).Returns s fun failed t => failed = true ∧
      Working fd s cs t cs o ∧ (t.fileNum fd).cursor = 512 ∧ (t.fileNum fd).flags.dirty = false := by
  have hpos := h.pos
  have hcapacity := h.capacity
  unfold FileS.offset at hpos
  apply (fatNextSectorWith_end hE h.volume h.chain h.place (by omega) (h.write.trans hread)).mono
  rintro failed t ⟨hfailed,ht⟩
  refine ⟨hfailed,.of_after ht rfl (Grows.flushed h.volume h.chain.inRange h.place)
    (h.flushed.stays rfl hend _ _),?_,?_⟩
  · rw [ht.file]
    exact hend
  · rw [ht.file]
    rfl

/-- Behind the chain a writer takes a cluster more, if there is one. -/
theorem fatNextSector_writer (hfuel : 0 < E.fuel) (hend : (s.fileNum fd).cursor = 512)
    (hbehind : o.pos = o.capacity) (hwrite : o.write = true) : (fatNextSector E fd).Returns s fun failed t =>
      (t.fileNum fd).flags.dirty = false ∧
        (failed = false ∧ 0 < o.free ∧ (t.fileNum fd).cursor = 0 ∧
          (∃ k, Working fd s cs t (cs ++ [k]) (o.extend s.fatfs.clusterBytes)) ∨
        failed = true ∧ o.free = 0 ∧ (t.fileNum fd).cursor = 512 ∧ Working fd s cs t cs o) := by
  have hpos := h.pos
  have hcapacity := h.capacity
  have hflushed := h.flushed
  have hgrows := @Grows.flushed s.fatfs s.dev.size (s.fileNum fd).entrySector (s.fileNum fd).entryNumber
    s.dev.blocks cs h.volume h.chain.inRange _ _ h.place
  unfold FileS.offset at hpos
  apply (fatNextSector_extend hE hfuel h.volume h.reserved h.chain h.place (by omega) (h.write.trans hwrite)
    h.entry).mono
  rintro failed t (⟨k,reserved,hk,hfailed,ht,har,hmark⟩ | ⟨hfull,hfailed,-,ht⟩)
  · have hlinked := hflushed.linked rfl hbehind hk
    have hmem : (s.fileNum fd).cluster ∈ cs := h.place.cluster ▸ h.volume.getD_mem h.place.inside
    have hfree : 0 < o.free := by
      rw [hflushed.free]
      apply Nat.pos_of_ne_zero
      rw [ne_eq,FatInfo.freeCount_eq_zero]
      exact fun hfull => hfull k hk.inTable hk.free
    have hgrown := (hgrows.trans h.volume (Grows.linked h.volume h.chain.inRange hmem
      (hk.inRange hflushed.reserved) hk.free)).trans h.volume
      (@Grows.stored _ _ _ _ h.volume hlinked.chain.inRange E _ h.entry reserved)
    rw [ht.blocks] at har
    exact ⟨har.clean,.inl ⟨hfailed,hfree,har.cursor,k,.of_after ht (FileS.origin_of_still har.still) hgrown
      ((hlinked.storedOn rfl E reserved).arrived rfl hend har rfl rfl fun _ => rfl)⟩⟩
  · rw [ht.file]
    refine ⟨rfl,.inr ⟨hfailed,?_,hend,.of_after ht rfl hgrows (hflushed.stays rfl hend _ _)⟩⟩
    rw [hflushed.free,FatInfo.freeCount_eq_zero]
    exact hfull

/-- A sector that is used up makes way for the next one, which a writer adds to the chain if it has to. -/
theorem turnSector_carries (hfuel : 0 < E.fuel) : (turnSector E fd).Returns s fun failed t => ∃ cs',
    Working fd s cs t cs' (o.turned s.fatfs.clusterBytes) ∧
      (failed = false → (t.fileNum fd).cursor < 512 ∧ o.pos < (o.turned s.fatfs.clusterBytes).capacity) ∧
      (failed = true → (t.fileNum fd).cursor = 512 ∧ o.pos = (o.turned s.fatfs.clusterBytes).capacity) ∧
      ((s.fileNum fd).flags.dirty = false → (t.fileNum fd).flags.dirty = false) := by
  have hpos := h.pos
  have hcapacity := h.capacity
  have hinside := h.place.inside
  have hle := h.pos_le
  unfold FileS.offset at hpos
  apply returns_file
  refine returns_ite (fun hend => ?_) fun hin => returns_pure ⟨cs,?_⟩
  · change (s.fileNum fd).cursor = 512 at hend
    rcases hle.lt_or_eq with hroom | hbehind
    · rw [OpenFile.turned_of_room hroom]
      apply (fatNextSector_carries hE h hend hroom).mono
      rintro failed t ⟨rfl,ht,hzero,hclean⟩
      exact ⟨cs,ht,fun _ => ⟨by omega,hroom⟩,by simp,fun _ => hclean⟩
    cases hwrite : o.write with
    | false =>
      rw [OpenFile.turned_of_read hwrite]
      apply (fatNextSector_reader hE h hend hbehind hwrite).mono
      rintro failed t ⟨rfl,ht,hcursor,hclean⟩
      exact ⟨cs,ht,by simp,fun _ => ⟨hcursor,hbehind⟩,fun _ => hclean⟩
    | true =>
      apply (fatNextSector_writer hE h hfuel hend hbehind hwrite).mono
      rintro failed t ⟨hclean,⟨rfl,hfree,hzero,k,ht⟩ | ⟨rfl,hfree,hcursor,ht⟩⟩
      · have hunit := h.volume.clusterBytes_pos
        rw [OpenFile.turned_extend hunit hfree hwrite hbehind]
        refine ⟨cs ++ [k],ht,fun _ => ⟨by omega,?_⟩,by simp,fun _ => hclean⟩
        change o.pos < o.capacity + s.fatfs.clusterBytes
        omega
      · rw [OpenFile.turned_of_full hfree]
        exact ⟨cs,ht,by simp,fun _ => ⟨hcursor,hbehind⟩,fun _ => hclean⟩
  · change ¬ (s.fileNum fd).cursor = 512 at hin
    have hcursor := h.cursor
    have hroom : o.pos < o.capacity := by
      have : ((s.fileNum fd).fileSector + 1) * 512 ≤ s.fatfs.span cs * 512 := Nat.mul_le_mul_right _ hinside
      omega
    rw [OpenFile.turned_of_room hroom]
    exact ⟨.refl h,fun _ => ⟨by omega,hroom⟩,by simp,id⟩

/-! ### Reading -/

omit hE in
/-- The access date is brought up to date. -/
theorem fatUpdateAtime_carries : (fatUpdateAtime E fd).Returns s fun _ t => Working fd s cs t cs o := by
  have hdated {t : FatState} {now : ℤ} {mark : Bool} (hm : mark = false → (s.fileNum fd).flags.fsDirty = false)
      (ht : After fd s t s.dev.blocks { s.fileNum fd with accessed := now, flags.fsDirty := mark }) :
      Working fd s cs t cs o :=
    .of_after ht rfl (Grows.refl h.chain.inRange)
      (FileS.Carries.same h rfl rfl rfl hm (h.place.congr rfl rfl rfl) h.cursor h.pos h.current)
  apply (time_returns E s).bind
  intro now t ht
  have hst := ht.after fd
  apply returns_file
  refine returns_ite (fun _ => ?_) fun _ => returns_pure (hdated id hst)
  apply (time_returns E t).bind
  intro now' u hu
  have hsu := hst.trans (hu.after fd)
  apply (updateFile_returns fd _ u).mono
  intro _ v hv
  rw [hsu.blocks,hst.blocks,hsu.file,hst.file] at hv
  rw [hst.blocks] at hsu
  exact hdated (by simp) (hsu.trans hv)

/-- A descriptor that may be behind its sector comes to the sector of the next byte. -/
theorem readTurn_carries (hfuel : 0 < E.fuel) (hroom : o.pos < o.capacity) :
    (if (s.fileNum fd).cursor = blockSize then fatNextSector E fd else pure false).Returns s fun failed t =>
      failed = false ∧ Working fd s cs t cs o ∧ (t.fileNum fd).cursor < 512 := by
  have hcursor := h.cursor
  refine returns_ite (fun hend => ?_) fun hin => returns_pure ⟨rfl,.refl h,?_⟩
  · apply (fatNextSector_carries hE h hend hroom).mono
    rintro failed t ⟨hfailed,ht,hzero,-⟩
    exact ⟨hfailed,ht,by omega⟩
  · change (s.fileNum fd).cursor ≠ 512 at hin
    omega

end NoFault

section Loops
variable {E : Env} (hE : E.NoFault) (hfuel : 0 < E.fuel) {fd : Fd} {s : FatState} {cs : List ℕ} {o : OpenFile}
include hE hfuel

/-- The loop of `fat_read` delivers the bytes from the position on. -/
theorem readLoop_carries (n : ℕ) (h : s.Carries fd cs o) : (readLoop E fd n).Returns s fun bytes t =>
    bytes = (o.content.drop o.pos).take n ∧ Working fd s cs t cs { o with pos := o.pos + bytes.length } := by
  induction n generalizing s o with
  | zero => exact returns_pure ⟨by rw [List.take_zero],.refl h⟩
  | succ n ih =>
    apply returns_file
    rw [h.position_eq,h.size_eq]
    refine returns_ite (fun hend => returns_pure ⟨?_,.refl h⟩) fun hin => ?_
    · rw [List.drop_eq_nil_of_le hend.2,List.take_nil]
    have hpos : o.pos < o.content.length := by
      by_contra hlt
      exact hin ⟨h.regular,by omega⟩
    apply (readTurn_carries hE h hfuel (hpos.trans_le h.room)).bind
    rintro failed t ⟨rfl,ht,hcursor⟩
    refine returns_ite (by simp) fun _ => returns_file ?_
    apply (updateFile_returns fd _ t).bind
    intro _ u hu
    have hstep : Working fd t cs u cs { o with pos := o.pos + 1 } :=
      .of_after hu rfl (Grows.refl ht.next.chain.inRange) (FileS.Carries.step ht.next hcursor hpos)
    apply (ih hstep.next).bind
    rintro bytes v ⟨rfl,hv⟩
    refine returns_pure ⟨?_,?_⟩
    · rw [FileS.Carries.byte ht.next hcursor hpos,List.drop_eq_getElem_cons hpos,List.take_succ_cons]
    · rw [List.length_cons,Nat.add_comm _ 1,← Nat.add_assoc]
      exact (ht.trans hstep).trans hv

/-- `fat_read` does what reading the open file does. -/
theorem readSlot_carries (count : ℕ) (h : s.Carries fd cs o) {r : ℤ × ℤ × List UInt8} {o' : OpenFile}
    (hrun : OpenFile.reading count o = .ok (r,o')) :
    (readSlot E count fd).Returns s fun r' t => r' = r ∧ Working fd s cs t cs o' := by
  have hopen := h.open_
  rw [OpenFile.reading] at hrun
  apply returns_file
  split at hrun
  · rename_i hread
    simp only [Except.ok.injEq,Prod.mk.injEq] at hrun
    obtain ⟨rfl,rfl⟩ := hrun
    rw [if_pos (.inr (h.read.trans hread))]
    exact returns_pure ⟨rfl,.refl h⟩
  rename_i hread
  simp only [Except.ok.injEq,Prod.mk.injEq] at hrun
  obtain ⟨rfl,rfl⟩ := hrun
  rw [if_neg (by rw [hopen,h.read]; simp [hread])]
  apply (readLoop_carries hE hfuel count h).bind
  rintro bytes t ⟨rfl,ht⟩
  have hlength : ((o.content.drop o.pos).take count).length < 2^31 := by
    have := h.small
    rw [List.length_take,List.length_drop]
    omega
  have hafter : (if 0 < ((o.content.drop o.pos).take count).length then fatUpdateAtime E fd else pure ()).Returns t
      fun _ u => Working fd s cs u cs
        { o with pos := o.pos + ((o.content.drop o.pos).take count).length } := by
    refine returns_ite (fun _ => ?_) fun _ => returns_pure ht
    apply (fatUpdateAtime_carries ht.next).mono
    exact fun _ u hu => ht.trans hu
  apply hafter.bind
  intro _ u hu
  refine returns_pure ⟨?_,hu⟩
  rw [i32_of_lt hlength]

/-! ### Seeking -/

omit hfuel in
/-- The seek itself, from a sector in the buffer or from behind the chain. -/
theorem seekRest_carries (ptr : ℤ) {p : ℕ} (h : s.Carries fd cs o) (hclean : (s.fileNum fd).flags.dirty = false)
    (hcursor : (s.fileNum fd).cursor < 512 ∨ o.pos = o.capacity) (hp : p ≤ o.content.length)
    (hne : p ≠ o.capacity) : (seekRest E s.fatfs fd ptr o.pos p).Returns s fun r t => r = ((p : ℤ),0) ∧
      Working fd s cs t cs { o with pos := p } := by
  have hroom := h.room
  have hsmall := h.small
  have hcapacity := h.capacity
  have hin : p < s.fatfs.span cs * 512 := by omega
  have hrest : (seekRest E s.fatfs fd ptr o.pos p).Returns s fun r t => r = (i32 p,0) ∧
      After fd s t s.dev.blocks (t.fileNum fd) ∧
      Landed s.fatfs cs p s.dev.blocks (s.fileNum fd) (t.fileNum fd) := by
    rcases hcursor with hcursor | hbehind
    · apply seekRest_inside hE h.volume h.chain hclean rfl ⟨h.place,h.cursor,h.pos,?_⟩ hcursor hin
      exact (h.current hcursor).resolve_left (by simp [hclean])
    · apply seekRest_chain hE h.volume h.chain hclean rfl hin
      rw [hbehind,hcapacity,Nat.mul_div_cancel _ (by decide),FatInfo.span,Nat.mul_div_cancel _ h.volume.spc_pos]
      have hq : p / 512 < s.fatfs.span cs := by omega
      exact (h.volume.index_lt hq).ne
  apply hrest.mono
  rintro r t ⟨rfl,ht,hl⟩
  exact ⟨by rw [i32_of_lt (by omega)],.of_after ht (FileS.origin_of_still hl.still)
    (Grows.refl h.chain.inRange) (h.landed hclean hl hp)⟩

/-- `fat_lseek` does what seeking in the open file does. -/
theorem seekSlot_carries (ptr : ℤ) (dir : Whence) (h : s.Carries fd cs o) {r : ℤ × ℤ} {o' : OpenFile}
    (hrun : OpenFile.seeking s.fatfs.clusterBytes ptr dir o = .ok (r,o')) :
    (seekSlot E ptr dir fd).Returns s fun r' t => r' = r ∧ ∃ cs', Working fd s cs t cs' o' := by
  rw [OpenFile.seeking] at hrun
  dsimp only at hrun
  split at hrun
  · simp at hrun
  rename_i hptr
  obtain ⟨hbeyond,hwithin⟩ := h.target_eq ptr dir (by omega)
  apply returns_file
  refine returns_ite (by simp [h.open_]) fun _ => ?_
  apply (fatFlush_carries hE h).bind
  rintro _ t ⟨-,hfile,ht⟩
  refine returns_file (returns_fatfs ?_)
  have htarget : (t.fileNum fd).target ptr dir = (s.fileNum fd).target ptr dir := by
    rw [hfile]
    cases dir <;> rfl
  have hsize : (t.fileNum fd).size = (s.fileNum fd).size := by
    rw [hfile]
    rfl
  rw [htarget,hsize,ht.next.position_eq,ht.but.fatfs]
  split at hrun
  · rename_i hout
    simp only [Except.ok.injEq,Prod.mk.injEq] at hrun
    obtain ⟨rfl,rfl⟩ := hrun
    rw [if_pos ⟨hbeyond hout,ht.next.regular⟩]
    exact returns_pure ⟨rfl,cs,ht⟩
  split at hrun
  · simp at hrun
  rename_i hin hcap
  simp only [Except.ok.injEq,Prod.mk.injEq] at hrun
  obtain ⟨rfl,rfl⟩ := hrun
  obtain ⟨p,hz⟩ : ∃ p : ℕ, (o.base dir : ℤ) + ptr = p := ⟨_,(Int.toNat_of_nonneg (by omega)).symm⟩
  rw [hz] at hwithin hin hcap
  obtain ⟨hp,hle⟩ := hwithin (by omega) (by omega)
  rw [hz,Int.toNat_natCast]
  rw [Int.toNat_natCast] at hp
  rw [hp] at hle ⊢
  rw [if_neg (by omega)]
  -- the sector that is used up
  have hturn := turnSector_carries hE ht.next hfuel
  rw [turnSector] at hturn
  change Returns (if (t.fileNum fd).cursor = blockSize then _ else _) _ _ at hturn
  apply hturn.bind
  rintro failed u ⟨cs',hu,hgo,hstay,hclean⟩
  rw [ht.but.fatfs] at hu hgo hstay
  have hfatfs : u.fatfs = s.fatfs := hu.but.fatfs.trans ht.but.fatfs
  have hrest := seekRest_carries hE ptr hu.next (hclean (by rw [hfile]; rfl))
    (by rw [OpenFile.turned_pos]; cases failed with
      | false => exact .inl (hgo rfl).1
      | true => exact .inr (hstay rfl).2)
    (show p ≤ _ by rw [OpenFile.turned_content]; omega) (by omega)
  rw [hfatfs,OpenFile.turned_pos] at hrest
  apply Returns.mono hrest
  rintro r' v ⟨rfl,hv⟩
  exact ⟨rfl,cs',(ht.trans hu).trans hv⟩

/-! ### Writing -/

/-- The loop of `fat_write` stores the bytes there is room for. -/
theorem writeLoop_carries (bytes : List UInt8) (h : s.Carries fd cs o) (hwrite : o.write = true)
    (hsmall : o.pos + bytes.length < 2^31) : (writeLoop E fd bytes).Returns s fun failed t =>
      (failed = false ↔ o.Stores s.fatfs.clusterBytes bytes) ∧
        ∃ cs', Working fd s cs t cs' (o.store s.fatfs.clusterBytes bytes) := by
  have hunit := h.volume.clusterBytes_pos
  induction bytes generalizing s cs o with
  | nil =>
    obtain ⟨hstore,hfits⟩ := @OpenFile.store_nil s.fatfs.clusterBytes o h.pos_le
    rw [hstore]
    exact returns_pure ⟨by simp [hfits],cs,.refl h⟩
  | cons c bytes ih =>
    obtain ⟨hstore,hfits⟩ := @OpenFile.store_turned _ o c bytes hunit hwrite h.pos_le
    have hpos := @OpenFile.turned_pos s.fatfs.clusterBytes o
    rw [List.length_cons] at hsmall
    rw [Returns,writeLoop_cons,← hstore,← hfits]
    apply (turnSector_carries hE h hfuel).bind
    rintro failed t ⟨cs',ht,hgo,hstay,-⟩
    cases failed with
    | true =>
      obtain ⟨-,hbehind⟩ := hstay rfl
      have hfree := OpenFile.turned_behind hunit hwrite h.pos_le hbehind
      obtain ⟨hstore,hfits⟩ := @OpenFile.store_full s.fatfs.clusterBytes _ c bytes hfree
        (hpos.trans hbehind)
      rw [hstore]
      exact returns_pure ⟨by simp [hfits],cs',ht⟩
    | false =>
      obtain ⟨hcursor,hroom⟩ := hgo rfl
      obtain ⟨hstore,hfits⟩ := @OpenFile.store_put s.fatfs.clusterBytes _ c bytes ht.next.inside
        (hpos ▸ hroom)
      have hput : Working fd t cs' (t.putByte fd c) cs' ((o.turned s.fatfs.clusterBytes).put [c]) :=
        .of_after (putByte_after t fd c) (by rw [FileS.put_swell]; rfl) (Grows.refl ht.next.chain.inRange)
          (FileS.Carries.put ht.next hcursor (by rw [hpos]; omega) c)
      have hfatfs : (t.putByte fd c).fatfs = s.fatfs := hput.but.fatfs.trans ht.but.fatfs
      have hrest := ih hput.next ((OpenFile.turned_write o).trans hwrite)
        (show (o.turned _).pos + 1 + bytes.length < 2^31 by rw [hpos]; omega) (hfatfs ▸ hunit)
      rw [hstore,hfits]
      rw [hfatfs] at hrest
      apply Returns.mono hrest
      rintro failed u ⟨hiff,cs'',hu⟩
      exact ⟨hiff,cs'',(ht.trans hput).trans hu⟩

omit hE hfuel in
/-- The time of the last change is set. -/
theorem fatUpdateMtime_carries (h : s.Carries fd cs o) :
    (fatUpdateMtime E fd).Returns s fun _ t => Working fd s cs t cs o := by
  apply (fatUpdateMtime_returns E fd s).mono
  rintro _ t ⟨now,ht⟩
  exact .of_after ht rfl (Grows.refl h.chain.inRange)
    (FileS.Carries.same h rfl rfl rfl (by simp) (h.place.congr rfl rfl rfl) h.cursor h.pos h.current)

/-- `fat_write` does what writing to the open file does. -/
theorem writeSlot_carries (bytes : List UInt8) (h : s.Carries fd cs o) {r : ℤ × ℤ} {o' : OpenFile}
    (hrun : OpenFile.writing s.fatfs.clusterBytes bytes o = .ok (r,o')) :
    (writeSlot E bytes fd).Returns s fun r' t => r' = r ∧ ∃ cs', Working fd s cs t cs' o' := by
  have hopen := h.open_
  rw [OpenFile.writing] at hrun
  apply returns_file
  split at hrun
  · rename_i hread
    simp only [Except.ok.injEq,Prod.mk.injEq] at hrun
    obtain ⟨rfl,rfl⟩ := hrun
    rw [if_pos (.inr (h.write.trans hread))]
    exact returns_pure ⟨rfl,cs,.refl h⟩
  rename_i hwrite
  obtain ⟨q,p,hseek,hstore⟩ := bind_ok hrun
  rw [if_neg (by rw [hopen,h.write]; simp [hwrite])]
  -- a descriptor opened to append goes to the end first
  have hstart : (if (s.fileNum fd).flags.append then seekSlot E 0 .end_ fd else pure (0,0)).Returns s fun q' t =>
      q'.2 = 0 ∧ p.write = true ∧ ∃ cs', Working fd s cs t cs' p := by
    rw [h.append]
    cases happend : o.append with
    | true =>
      rw [happend,if_pos rfl] at hseek
      obtain ⟨hzero,-,hp⟩ := OpenFile.seeking_ok hseek
      apply (seekSlot_carries hE hfuel 0 .end_ h hseek).mono
      rintro q' t ⟨rfl,ht⟩
      exact ⟨hzero,by rw [hp]; simpa using hwrite,ht⟩
    | false =>
      rw [happend,if_neg (by decide)] at hseek
      obtain ⟨-,rfl⟩ : ((0 : ℤ),(0 : ℤ)) = q ∧ o = p := by simpa using hseek
      exact returns_pure ⟨rfl,by simpa using hwrite,cs,.refl h⟩
  apply hstart.bind
  rintro ⟨q₁,e⟩ t ⟨rfl,hp,cs',ht⟩
  rw [OpenFile.storing] at hstore
  split at hstore
  · simp at hstore
  rename_i hsmall
  simp only [Except.ok.injEq,Prod.mk.injEq] at hstore
  obtain ⟨rfl,rfl⟩ := hstore
  have hfatfs : t.fatfs = s.fatfs := ht.but.fatfs
  have hloop := writeLoop_carries hE hfuel bytes ht.next hp (by omega)
  rw [hfatfs] at hloop
  apply Returns.bind hloop
  rintro failed u ⟨hiff,cs'',hu⟩
  cases failed with
  | true =>
    have hfull : ¬ p.Stores s.fatfs.clusterBytes bytes := by simp [← hiff]
    exact returns_pure ⟨by rw [if_neg hfull],cs'',ht.trans hu⟩
  | false =>
    have hafter : (if 0 < bytes.length then fatUpdateMtime E fd else pure ()).Returns u fun _ v =>
        Working fd s cs v cs'' (p.store s.fatfs.clusterBytes bytes) := by
      refine returns_ite (fun _ => ?_) fun _ => returns_pure (ht.trans hu)
      apply (fatUpdateMtime_carries hu.next).mono
      exact fun _ v hv => (ht.trans hu).trans hv
    apply hafter.bind
    intro _ v hv
    refine returns_pure ⟨?_,cs'',hv⟩
    rw [if_pos (hiff.1 rfl),i32_of_lt (by omega)]

/-! ### Closing -/

/-- `fat_close` writes back what is left and gives the descriptor back. What it leaves on the medium is the
file. -/
theorem closeSlot_carries (h : s.Carries fd cs o) : (closeSlot E fd).Returns s fun r t => r = (0,0) ∧
    ∃ u, Working fd s cs u cs o ∧ (u.fileNum fd).flags.dirty = false ∧ (u.fileNum fd).flags.fsDirty = false ∧
      After fd u t u.dev.blocks { u.fileNum fd with flags := .none } := by
  apply returns_file
  refine returns_ite (by simp [h.open_]) fun _ => ?_
  have hflush : (if (s.fileNum fd).flags.dirty then do pure ((← fatFlush E fd) != 0) else pure false).Returns s
      fun failed t => failed = false ∧ Working fd s cs t cs o ∧ (t.fileNum fd).flags.dirty = false := by
    refine returns_ite (fun _ => ?_) fun hclean => returns_pure ⟨rfl,.refl h,by simpa using hclean⟩
    apply (fatFlush_carries hE h).bind
    rintro r t ⟨rfl,hfile,ht⟩
    exact returns_pure ⟨rfl,ht,by rw [hfile]; rfl⟩
  apply hflush.bind
  rintro failed t ⟨rfl,ht,hclean⟩
  refine returns_ite (by simp) fun _ => returns_file ?_
  have hstore : (if (t.fileNum fd).flags.fsDirty then do pure ((← fatFlushFileinfo E fd) != 0)
      else pure false).Returns t fun failed u => failed = false ∧ Working fd t cs u cs o ∧
        (u.fileNum fd).flags.dirty = false ∧ (u.fileNum fd).flags.fsDirty = false := by
    refine returns_ite (fun _ => ?_) fun hmark => returns_pure ⟨rfl,.refl ht.next,hclean,by simpa using hmark⟩
    have hn := ht.next
    apply (fatFlushFileinfo_returns hE hfuel (hn.entry.not_skip hn.volume) hclean (hn.entry.sector_ne hn.volume)
      hn.entry.sector_lt (hn.place.sector_lt hn.volume hn.chain.inRange)).bind
    rintro r u ⟨rfl,reserved,hu⟩
    refine returns_pure ⟨rfl,.of_after hu rfl (Grows.stored hn.volume hn.chain.inRange hn.entry reserved)
      (FileS.Carries.storedOn hn hclean E reserved),?_,?_⟩
    all_goals rw [hu.file]
    exact hclean
  apply hstore.bind
  rintro failed u ⟨rfl,hu,hclean,hmark⟩
  refine returns_ite (by simp) fun _ => ?_
  apply (updateFile_returns fd _ u).bind
  intro _ v hv
  exact returns_pure ⟨rfl,u,ht.trans hu,hclean,hmark,hv⟩

end Loops

end Gristle
