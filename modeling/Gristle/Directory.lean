import Gristle.Growth

/-! Reading a directory: the blocks a scan visits, one after the other, and what a search for a
name finds in them. -/
namespace Gristle
open Prog

/-! ### The blocks of a directory, as they are scanned -/

/-- The blocks a scan of the directory at cluster `c` visits. The fixed root is scanned one block too
far, and its length only counts modulo 256. -/
inductive FatInfo.Scanned (g : FatInfo) (B : ℕ → Sector) : ℕ → List ℕ → Prop
  | fixed (h : g.type = partTypeFat16) :
      g.Scanned B 1 ((List.range (u8 g.rootLen + 1)).map (g.rootStart + ·))
  | chain {c : ℕ} {cs : List ℕ} (h : g.Chain B c cs) :
      g.Scanned B c ((List.range (g.span cs)).map (g.sectorAt cs))

/-- The descriptor stands on block `q` of those a scan visits. -/
def FileS.Stands (g : FatInfo) (B : ℕ → Sector) (c q : ℕ) (f : FileS) : Prop :=
  (g.type = partTypeFat16 ∧ c = 1 ∧ f.cluster = 1 ∧ f.sector = g.rootStart + q ∧
      f.sectorsLeft + q = u8 g.rootLen) ∨
    ∃ cs, g.Chain B c cs ∧ f.At g cs q

namespace FatInfo
variable {g : FatInfo} {size : ℕ} {B : ℕ → Sector} {c : ℕ} {secs : List ℕ}

/-- A first cluster determines the blocks. -/
theorem Scanned.unique (h : g.Scanned B c secs) {secs' : List ℕ} (h' : g.Scanned B c secs') :
    secs = secs' := by
  have hone {cs : List ℕ} (h : g.Chain B 1 cs) : False := by
    have := (h.inRange 1 h.links.head_mem).1
    omega
  cases h with
  | fixed =>
    cases h' with
    | fixed => rfl
    | chain h' => exact (hone h').elim
  | chain h =>
    cases h' with
    | fixed => exact (hone h).elim
    | chain h' => rw [h.links.unique h'.links]

theorem Valid.fat16_of_type (hg : g.Valid size) (h : g.type = partTypeFat16) : g.IsFat16 :=
  hg.kind.resolve_right fun h' => by
    rw [h'.type] at h
    exact absurd h (by decide)

/-- Every block a scan visits lies on the device, behind the table. -/
theorem Scanned.mem (h : g.Scanned B c secs) (hg : g.Valid size) {b : ℕ} (hb : b ∈ secs) :
    b < size ∧ g.activeFatStart + g.sectorsPerFat ≤ b := by
  cases h with
  | fixed h =>
    have h16 := hg.fat16_of_type h
    have h₁ := h16.table
    have h₂ := h16.fixed
    have h₃ := hg.dataStart_lt
    obtain ⟨q,hq,rfl⟩ := List.mem_map.1 hb
    have hq := List.mem_range.1 hq
    have hu : u8 g.rootLen ≤ g.rootLen := Nat.mod_le _ _
    omega
  | chain h =>
    obtain ⟨q,hq,rfl⟩ := List.mem_map.1 hb
    have hq := List.mem_range.1 hq
    have h₁ := hg.sectorAt_lt h.inRange hq
    have h₂ := hg.table_le
    omega

theorem Scanned.length_le (h : g.Scanned B c secs) (hg : g.Valid size) :
    secs.length ≤ g.span (List.range (g.entries - 2)) + 256 := by
  cases h with
  | fixed =>
    have hu : u8 g.rootLen < 256 := Nat.mod_lt _ (by decide)
    simp only [List.length_map,List.length_range]
    omega
  | chain h =>
    have h₁ := Nat.mul_le_mul h.length_le (Nat.le_refl g.sectorsPerCluster)
    simp only [List.length_map,List.length_range,FatInfo.span]
    omega

/-- The block under a descriptor that stands on block `q`. -/
theorem Scanned.stands (h : g.Scanned B c secs) (hg : g.Valid size) {q : ℕ} {f : FileS}
    (hf : f.Stands g B c q) : q < secs.length ∧ secs.getD q 0 = f.sector := by
  rcases hf with ⟨h16,rfl,-,hsector,hleft⟩ | ⟨cs,hcs,hat⟩
  · obtain rfl := h.unique (.fixed h16)
    have hq : q < u8 g.rootLen + 1 := by omega
    refine ⟨by simpa using hq,?_⟩
    rw [List.getD_eq_getElem _ _ (by simpa using hq),List.getElem_map,List.getElem_range,hsector]
  · obtain rfl := h.unique (.chain hcs)
    refine ⟨by simpa using hat.inside,?_⟩
    rw [List.getD_eq_getElem _ _ (by simpa using hat.inside),List.getElem_map,List.getElem_range,
      hat.sector]

/-- A directory that can be scanned: a first cluster with an entry that starts a chain, or the
fixed root. -/
theorem Scanned.select (h : g.Scanned B c secs) (hg : g.Valid size) (f : FileS) :
    (f.select g c).Stands g B c 0 ∧ (f.select g c).cursor = 0 := by
  cases h with
  | fixed h16 =>
    rw [FileS.select,if_pos rfl]
    exact ⟨.inl ⟨h16,rfl,rfl,rfl,rfl⟩,rfl⟩
  | @chain c cs h =>
    have hpos := h.links.length_pos
    have hzero : cs[0] = c := by
      have := h.links.getElem_zero
      rw [List.getElem?_eq_getElem hpos] at this
      exact Option.some.inj this
    have hat := hg.select_at h.inRange hpos f
    rw [hzero,Nat.zero_mul] at hat
    exact ⟨.inr ⟨cs,h,hat.1⟩,hat.2⟩

end FatInfo

theorem FileS.still_select (g : FatInfo) (c : ℕ) (f : FileS) : (f.select g c).still = f.still := by
  unfold FileS.select
  split <;> rfl

theorem FileS.flags_select (g : FatInfo) (c : ℕ) (f : FileS) : (f.select g c).flags = f.flags := by
  unfold FileS.select
  split <;> rfl

theorem FileS.select_select (g : FatInfo) (c : ℕ) (f : FileS) (buf : Sector) :
    FileS.select g c { f.select g c with buffer := buf } = { f.select g c with buffer := buf } := by
  unfold FileS.select
  split <;> rfl

theorem FileS.cursor_select (g : FatInfo) (c : ℕ) (f : FileS) : (f.select g c).cursor = 0 := by
  unfold FileS.select
  split <;> rfl

theorem fatSelectCluster_result {E : Env} {fd : Fd} {c : ℕ} {s t : FatState} {failed : Bool}
    (h : fatSelectCluster E fd c s = .ok (failed,t)) : ∃ buf, After fd s t s.dev.blocks
      { (s.fileNum fd).select s.fatfs c with buffer := buf } ∧
      (failed = false → buf = s.dev.blocks ((s.fileNum fd).select s.fatfs c).sector) := by
  rw [fatSelectCluster,bind_of_ok rfl] at h
  obtain ⟨a,u,hu,h⟩ := bind_ok h
  have hset := updateFile_result hu
  rw [bind_of_ok rfl,hset.file] at h
  have hread := readBuffer_result h
  rw [hset.blocks,hset.file] at hread
  rcases hread with ⟨rfl,hread⟩ | ⟨rfl,hread⟩
  · exact ⟨_,hset.trans hread,by simp⟩
  · exact ⟨_,hset.trans hread,fun _ => rfl⟩

section NoFault
variable {E : Env} (hE : E.NoFault)
include hE

/-- Turn to the next block of a directory, or notice that there is none. -/
theorem fatNextSectorWith_scanned {ffi : Fd → FatM ℤ} {fd : Fd} {s : FatState} {c q : ℕ}
    {secs : List ℕ} (hg : s.fatfs.Valid s.dev.size) (h : s.fatfs.Scanned s.dev.blocks c secs)
    (hstands : (s.fileNum fd).Stands s.fatfs s.dev.blocks c q)
    (hclean : (s.fileNum fd).flags.dirty = false)
    (hq : q + 1 < secs.length ∨ (s.fileNum fd).flags.write = false) :
    (fatNextSectorWith ffi E fd).Returns s fun failed t =>
      After fd s t s.dev.blocks (t.fileNum fd) ∧
      (t.fileNum fd).still = (s.fileNum fd).still ∧ (t.fileNum fd).flags = (s.fileNum fd).flags ∧
      if q + 1 < secs.length then failed = false ∧
        (t.fileNum fd).Stands s.fatfs s.dev.blocks c (q+1) ∧ (t.fileNum fd).Loaded s.dev.blocks ∧
        (t.fileNum fd).cursor = 0 ∧ (t.fileNum fd).fileSector = u32 ((s.fileNum fd).fileSector + 1)
      else failed = true := by
  have hflags {f f' : FileS} (hs : f'.still = f.still) (hc : f.flags.dirty = false)
      (hc' : f'.flags.dirty = false) (hfs : f'.flags.fsDirty = f.flags.fsDirty) : f'.flags = f.flags := by
    have h₁ := FileS.field_of_still (fun f => (f.flags.open_,f.flags.read,f.flags.write,f.flags.append))
      (fun _ => rfl) hs
    obtain ⟨⟨_,_,_,_,_,_⟩,_⟩ := f
    obtain ⟨⟨_,_,_,_,_,_⟩,_⟩ := f'
    simp only [Prod.mk.injEq] at h₁ hc hc' hfs
    obtain ⟨rfl,rfl,rfl,rfl⟩ := h₁
    rw [hc,hc',hfs]
  rcases hstands with ⟨h16,rfl,hcluster,hsector,hleft⟩ | ⟨cs,hcs,hat⟩
  · obtain rfl := h.unique (.fixed h16)
    simp only [List.length_map,List.length_range] at hq ⊢
    have hfix := hg.fat16_of_type h16
    have hroot := hfix.fixed
    have hdata := hg.dataStart_lt
    have hsize := hg.size
    have hu : u8 s.fatfs.rootLen ≤ s.fatfs.rootLen := Nat.mod_le _ _
    refine returns_bind_of_ok (fatFlushWith_clean hclean) ?_
    refine returns_ite (by simp) fun _ => returns_file ?_
    refine returns_ite (fun hpos => ?_) fun hpos => ?_
    · have hsec : u32 ((s.fileNum fd).sector + 1) = s.fatfs.rootStart + (q+1) := by
        rw [hsector]
        exact u32_of_lt (by omega)
      refine (updateFile_returns fd _ s).bind fun _ t ht => returns_file ?_
      rw [ht.file]
      have hread := @readBuffer_returns E hE fd t (u32 ((s.fileNum fd).sector + 1))
        (by rw [ht.size,hsec]; omega)
      refine hread.mono fun failed u hu => ?_
      obtain ⟨rfl,hu⟩ := hu
      rw [ht.blocks,ht.file] at hu
      rw [if_pos (by omega)]
      refine ⟨(ht.trans hu).self,?_⟩
      rw [hu.file]
      refine ⟨rfl,rfl,rfl,.inl ⟨h16,rfl,hcluster,hsec,?_⟩,rfl,rfl,rfl⟩
      change (s.fileNum fd).sectorsLeft - 1 + (q+1) = _
      omega
    · have hend : (s.fileNum fd).flags.write = false := hq.resolve_left (by omega)
      have hlast : ¬ q + 1 < u8 s.fatfs.rootLen + 1 := by omega
      simp only [if_neg hlast]
      refine returns_bind_of_ok (a := (-1,0)) (t := s.setFile fd { s.fileNum fd with
        error := fatEndOfFile }) ?_ ?_
      · rw [fatNextClusterWith,bind_of_ok (fatFlushWith_clean hclean),run_ite,if_neg (by simp),
          bind_of_ok rfl,bind_of_ok rfl,run_ite,if_pos hcluster,bind_of_ok rfl]
        rfl
      · have hset := updateFile_after fd (fun f => { f with error := fatEndOfFile }) s
        refine returns_ite (fun h => absurd h (by decide)) fun _ => returns_pure ⟨hset.self,?_⟩
        rw [hset.file]
        exact ⟨rfl,rfl,rfl⟩
  · obtain rfl := h.unique (.chain hcs)
    simp only [List.length_map,List.length_range] at hq ⊢
    have hflushed := FileS.flushed_of_clean hclean s.dev.blocks
    by_cases hin : q + 1 < s.fatfs.span cs
    · refine (fatNextSectorWith_inside hE hg hcs hat hin).mono fun failed t ht => ?_
      obtain ⟨hfailed,ht,harr,hfs⟩ := ht
      rw [hflushed] at ht harr
      rw [if_pos hin]
      exact ⟨ht,harr.still,hflags harr.still hclean harr.clean hfs,hfailed,.inr ⟨cs,hcs,harr.at_⟩,
        harr.loaded,harr.cursor,harr.fileSector⟩
    · have hlast : q + 1 = s.fatfs.span cs := by
        have := hat.inside
        omega
      refine (fatNextSectorWith_end hE hg hcs hat hlast (hq.resolve_left hin)).mono fun failed t ht => ?_
      obtain ⟨rfl,ht⟩ := ht
      rw [hflushed] at ht
      rw [if_neg hin]
      refine ⟨ht.self,?_⟩
      rw [ht.file]
      refine ⟨rfl,?_,rfl⟩
      change (s.fileNum fd).clean.flags = _
      rw [FileS.clean_of_clean hclean]

end NoFault

end Gristle
