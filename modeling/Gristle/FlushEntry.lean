import Gristle.Cursor
import Gristle.Entry

/-! The flush of a directory entry: what the calls of `fat_flush_fileinfo` leave behind when none of
them fails, and what a descriptor with an entry finds afterwards. -/
namespace Gristle
open Prog

section Steps
variable {E : Env} {fd : Fd} {s t : FatState}

/-- The flush of a buffer that has a sector. -/
theorem fatFlushWith_result {ffi : Fd → FatM ℤ} (h : fatFlushWith ffi E fd s = .ok (0,t))
    (h₀ : (s.fileNum fd).sector ≠ 0) :
    After fd s t ((s.fileNum fd).flushed s.dev.blocks) (s.fileNum fd).clean := by
  cases hd : (s.fileNum fd).flags.dirty with
  | false =>
    obtain rfl : s = t := by simpa [fatFlushWith_clean hd] using h
    rw [FileS.flushed_of_clean hd,FileS.clean_of_clean hd]
    exact After.refl s
  | true =>
    rw [fatFlushWith,bind_of_ok rfl] at h
    simp only [hd,if_true,if_neg h₀] at h
    obtain ⟨failed,u,hu,h⟩ := bind_ok h
    rw [run_ite] at h
    split at h
    · exact absurd (pure_ok h).1 (by decide)
    · rename_i hwritten
      obtain rfl : failed = false := by simpa using hwritten
      have hwrite := (writeBlock_result hu).2.after fd
      obtain ⟨_,v,hv,h⟩ := bind_ok h
      obtain ⟨-,rfl⟩ := pure_ok h
      have hclean := updateFile_result hv
      rw [hwrite.blocks,hwrite.file] at hclean
      rw [FileS.flushed,hd,if_pos rfl]
      exact hwrite.trans hclean

/-- A flush that returns zero has flushed the buffer, found the block of the entry and written it. -/
theorem fatFlushFileinfo_steps (h : fatFlushFileinfo E fd s = .ok (0,t))
    (hskip : ¬ (s.fileNum fd).SkipsFlush s.fatfs) :
    ∃ (n : ℕ) (reserved : UInt8) (r u v : FatState), AfterMedium s r s.dev.blocks ∧
      fatFlushWith (fatFlushFileinfoAux E n) E fd r = .ok (0,u) ∧
      locateEntry (fatFlushFileinfoAux E n) E fd u = .ok (false,v) ∧
      (v.fileNum fd).entrySector < v.dev.size ∧
      let B := Function.update v.dev.blocks (v.fileNum fd).entrySector
        ((v.fileNum fd).buffer.setDirent (v.fileNum fd).entryNumber ((s.fileNum fd).toDirent E reserved))
      After fd v t B { v.fileNum fd with buffer := B (v.fileNum fd).sector, flags.fsDirty := false } := by
  rw [fatFlushFileinfo] at h
  cases hfuel : E.fuel with
  | zero => simp [hfuel,fatFlushFileinfoAux] at h
  | succ n =>
    rw [hfuel,fatFlushFileinfoAux,flushFileinfoBody,bind_of_ok rfl,bind_of_ok rfl] at h
    simp only [FileS.SkipsFlush,not_or] at hskip
    simp only [if_neg hskip.1,if_neg hskip.2.1,if_neg hskip.2.2] at h
    obtain ⟨j,r,hr,h⟩ := bind_ok h
    obtain ⟨a,u,hu,h⟩ := bind_ok h
    rw [run_ite] at h
    split at h
    · exact absurd (pure_ok h).1 (by decide)
    rename_i hzero
    obtain rfl : a = 0 := not_not.1 hzero
    obtain ⟨b,v,hv,h⟩ := bind_ok h
    rw [run_ite] at h
    split at h
    · exact absurd (pure_ok h).1 (by decide)
    rename_i hlocated
    obtain rfl : b = false := by simpa using hlocated
    obtain ⟨_,w,hw,h⟩ := bind_ok h
    have hset := updateFile_result hw
    rw [bind_of_ok rfl,hset.file] at h
    obtain ⟨failed,x,hx,h⟩ := bind_ok h
    rw [run_ite] at h
    split at h
    · exact absurd (pure_ok h).1 (by decide)
    rename_i hwritten
    obtain rfl : failed = false := by simpa using hwritten
    obtain ⟨hlt,hwrite⟩ := writeBlock_result hx
    obtain ⟨failed,y,hy,h⟩ := bind_ok h
    rw [run_ite] at h
    split at h
    · exact absurd (pure_ok h).1 (by decide)
    rename_i hloaded
    have hread := ((readBuffer_result hy).resolve_left fun h => hloaded h.1).2
    obtain ⟨_,z,hz,h⟩ := bind_ok h
    obtain ⟨-,rfl⟩ := pure_ok h
    have hwx := hwrite.after fd
    rw [hset.blocks,hset.file] at hwx
    rw [hwx.blocks,hwx.file] at hread
    have hlast := updateFile_result hz
    rw [hread.blocks,hread.file] at hlast
    exact ⟨n,j 12,r,u,v,(junk_returns E s).of_ok hr,hu,hv,hset.size ▸ hlt,
      hset.trans (hwx.trans (hread.trans hlast))⟩

end Steps

/-! ### An existing entry -/

/-- What `fat_lookup_path` makes of the entry is what `f` stores, the size as 32 bits. -/
structure FileS.DecodedAs (f r : FileS) : Prop where
  filename : r.filename = f.filename
  extension : r.extension = f.extension
  attributes : r.attributes = f.attributes
  first : r.fullFirstCluster = f.fullFirstCluster
  size : r.size = f.size % 2^32

/-- The slot of the entry holds the descriptor, the rest of its block is as before, the descriptor stands
where it stood with nothing to store, and its buffer is its sector on the device, written back before. -/
structure EntryFlushed (fd : Fd) (s t : FatState) : Prop where
  others : ∀ k < 512, k < 32 * (s.fileNum fd).entryNumber ∨ 32 * (s.fileNum fd).entryNumber + 32 ≤ k →
    (t.dev.blocks (s.fileNum fd).entrySector).get k = (s.dev.blocks (s.fileNum fd).entrySector).get k
  decoded : ∀ E f, (s.fileNum fd).DecodedAs (FileS.load E s.fatfs
    ((t.dev.blocks (s.fileNum fd).entrySector).dirent (s.fileNum fd).entryNumber) (s.fileNum fd).entryNumber f)
  sector : (t.fileNum fd).sector = (s.fileNum fd).sector
  cluster : (t.fileNum fd).cluster = (s.fileNum fd).cluster
  sectorsLeft : (t.fileNum fd).sectorsLeft = (s.fileNum fd).sectorsLeft
  fileSector : (t.fileNum fd).fileSector = (s.fileNum fd).fileSector
  cursor : (t.fileNum fd).cursor = (s.fileNum fd).cursor
  clean : (t.fileNum fd).flags.dirty = false ∧ (t.fileNum fd).flags.fsDirty = false
  loaded : (t.fileNum fd).buffer = t.dev.blocks (s.fileNum fd).sector
  written : (s.fileNum fd).flags.dirty = true → t.dev.blocks (s.fileNum fd).sector = (s.fileNum fd).buffer

/-- A descriptor with an entry and a data sector elsewhere. -/
structure FileS.HasSlot (g : FatInfo) (f : FileS) : Prop where
  entry : f.entrySector ≠ 0
  number : f.entryNumber < 16
  first : f.fullFirstCluster ≠ 0 ∧ f.fullFirstCluster ≠ g.rootCluster
  first32 : f.fullFirstCluster < 2^32
  first16 : g.type = partTypeFat16 → f.fullFirstCluster < 2^16
  sector : f.sector ≠ 0
  apart : f.sector ≠ f.entrySector

theorem FileS.HasSlot.stores {g : FatInfo} {f : FileS} (h : f.HasSlot g) : ¬ f.SkipsFlush g := by
  simp [SkipsFlush,h.first,h.entry]

/-- An entry that has gone through a block is decoded as it was. -/
theorem FileS.HasSlot.decoded {E E' : Env} {g : FatInfo} {f : FileS} (h : f.HasSlot g) (b : Sector)
    (reserved : UInt8) (f₀ : FileS) : f.DecodedAs (FileS.load E' g
      ((b.setDirent f.entryNumber (f.toDirent E reserved)).dirent f.entryNumber) f.entryNumber f₀) := by
  rw [dirent_setDirent _ _ h.number]
  have hcluster := cluster_toDirent_stored E g f reserved h.first32 h.first16
  refine ⟨rfl,rfl,rfl,?_,?_⟩
  · change (if DirentS.cluster _ g = 0 then g.rootCluster else DirentS.cluster _ g) = _
    rw [hcluster,if_neg h.first.1]
  · exact Nat.mod_mod f.size (2^32)

section Existing
variable {E : Env} {fd : Fd} {s t : FatState} (h : (s.fileNum fd).HasSlot s.fatfs)
include h

theorem fatFlushFileinfo_result (hrun : fatFlushFileinfo E fd s = .ok (0,t)) : ∃ reserved,
    After fd s t ((s.fileNum fd).storedOn E reserved ((s.fileNum fd).flushed s.dev.blocks))
      { (s.fileNum fd).clean with
        buffer := (s.fileNum fd).storedOn E reserved ((s.fileNum fd).flushed s.dev.blocks)
          (s.fileNum fd).sector
        flags.fsDirty := false } := by
  obtain ⟨n,reserved,r,u,v,hr,hu,hv,-,ht⟩ := fatFlushFileinfo_steps hrun h.stores
  have hflush := fatFlushWith_result hu (by rw [hr.table.fileNum]; exact h.sector)
  rw [hr.blocks,hr.table.fileNum] at hflush
  have hau := (hr.after fd).trans hflush
  rw [locateEntry_of_entry (by rw [hau.file]; exact h.entry)] at hv
  have hread := ((readBuffer_result hv).resolve_left fun h => Bool.false_ne_true h.1).2
  rw [hau.blocks,hau.file] at hread
  rw [hread.blocks,hread.file] at ht
  exact ⟨reserved,hau.trans (hread.trans ht)⟩

/-- Flushing the entry of a descriptor that has one changes its 32 bytes and nothing else: without
failures it returns zero, and whenever it does the descriptor can go on where it was. -/
theorem fatFlushFileinfo_transparent :
    (E.NoFault → 0 < E.fuel → (s.fileNum fd).entrySector < s.dev.size → (s.fileNum fd).sector < s.dev.size →
      ∃ t, fatFlushFileinfo E fd s = .ok (0,t)) ∧
    ∀ t, fatFlushFileinfo E fd s = .ok (0,t) → EntryFlushed fd s t := by
  refine ⟨fun hE hfuel hlt hsector => ?_,fun t hrun => ?_⟩
  · obtain ⟨r,t,hrun,rfl,-⟩ :=
      fatFlushFileinfo_existing hE hfuel h.stores (.inr h.sector) h.entry hlt hsector
    exact ⟨t,hrun⟩
  obtain ⟨reserved,ht⟩ := fatFlushFileinfo_result h hrun
  have hentry : t.dev.blocks (s.fileNum fd).entrySector =
      (s.dev.blocks (s.fileNum fd).entrySector).setDirent (s.fileNum fd).entryNumber
        ((s.fileNum fd).toDirent E reserved) := by
    have hother : (s.fileNum fd).flushed s.dev.blocks (s.fileNum fd).entrySector =
        s.dev.blocks (s.fileNum fd).entrySector := by
      rw [FileS.flushed]
      split
      · exact Function.update_of_ne h.apart.symm _ _
      · rfl
    rw [ht.blocks,FileS.storedOn,Function.update_self,hother]
  have hdata : t.dev.blocks (s.fileNum fd).sector =
      (s.fileNum fd).flushed s.dev.blocks (s.fileNum fd).sector := by
    rw [ht.blocks,FileS.storedOn,Function.update_of_ne h.apart]
  constructor
  case others =>
    intro k _ hk
    rw [hentry,get_setDirent_of_ne _ _ _ _ hk]
  case decoded =>
    intro E' f₀
    rw [hentry]
    exact h.decoded _ _ _
  case written =>
    intro hdirty
    rw [hdata,FileS.flushed,hdirty,if_pos rfl,Function.update_self]
  case loaded => rw [ht.file,ht.blocks]
  all_goals rw [ht.file]
  all_goals first | rfl | exact ⟨rfl,rfl⟩

end Existing

/-- The file of a small volume, open for writing, with a changed buffer. -/
def FatState.changed : FatState := (FatState.mounted smallFat16 300 oneFile).setFile 0
  { FileS.closed with
    flags := { Flags.none with open_ := true, write := true, dirty := true, fsDirty := true }
    filename := fun k => (oneFile 2).get k, extension := fun k => (oneFile 2).get (8 + k)
    sector := 3, cluster := 2, size := 5, fullFirstCluster := 2, entrySector := 2 }

/-- Its entry can be flushed. -/
theorem fatFlushFileinfo_transparent_changed : ∃ t,
    fatFlushFileinfo (.calm (fun _ => 0) 8) 0 .changed = .ok (0,t) ∧ EntryFlushed 0 .changed t := by
  have h := @fatFlushFileinfo_transparent (.calm (fun _ => 0) 8) 0 .changed
    ⟨by decide,by decide,by decide,by decide,by decide,by decide,by decide⟩
  obtain ⟨t,ht⟩ := h.1 ⟨fun _ => rfl,fun _ => rfl,fun _ => rfl⟩ (by decide) (by decide) (by decide)
  exact ⟨t,ht,h.2 t ht⟩

end Gristle
